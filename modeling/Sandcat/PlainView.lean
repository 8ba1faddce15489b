import Sandcat.Received

/-!
# Each message once in the plain box

A group message is stored in many copies with one `server_id`. The reader sees at
most one of them: the sender the copy that kept the send number, a member the copy
that is addressed to it.
-/

namespace Sandcat

open Remote

namespace Save

/-- The message is for the user, directly or as a member, with a number of a range. -/
def AddressedTo (userId : UserId) (recStart recEnd : Int) : Save → Prop
  | single m => m.receiverId = userId ∧ recStart < m.seq ∧ m.seq ≤ recEnd
  | group _ members => ∃ s ∈ members, s.memId = userId ∧ recStart < s.curSeq ∧ s.curSeq ≤ recEnd

/-- The message is sent by the user, with a send number of a range. -/
def SentBy (userId : UserId) (sendStart sendEnd : Int) (s : Save) : Prop :=
  s.message.senderId = userId ∧ sendStart < s.message.sendSeq ∧ s.message.sendSeq ≤ sendEnd

/-- Group members are different from each other and from the sender, and a group message is
addressed to a group and not to the user. -/
def Proper (userId : UserId) : Save → Prop
  | single _ => True
  | group m members => (members.map (·.memId)).Nodup ∧ m.senderId ∉ members.map (·.memId) ∧
      m.receiverId ≠ userId

variable {u : UserId} {ss se rs re : Int}

/-- The copies of a save that the reader of a plain box sees. -/
def seen (u : UserId) (ss se rs re : Int) (s : Save) : List Msg :=
  (s.copies .plain).filter fun m => matchMsgs (fun start i => start < i) u ss se rs re (toDoc m)

theorem matchMsgs_toDoc {above : Int → Int → Bool} {m : Msg} :
    matchMsgs above u ss se rs re (toDoc m) = true ↔
      (m.receiverId = u ∧ above rs m.seq = true ∧ m.seq ≤ re) ∨
        (m.senderId = u ∧ above ss m.sendSeq = true ∧ m.sendSeq ≤ se) := by
  simp [matchMsgs, Document.holds]

/-- The sender sees its own copy only. -/
theorem seen_group_sender {m : Msg} {members : List GroupMemSeq}
    (h : (group m members).Proper u) (hss : 0 ≤ ss) (hu : m.senderId = u) :
    (group m members).seen u ss se rs re =
      if ss < m.sendSeq ∧ m.sendSeq ≤ se then [m] else [] := by
  obtain ⟨-, hsender, hgroup⟩ := h
  have hmembers : (members.map fun s =>
      { m with sendSeq := 0, seq := s.curSeq, receiverId := s.memId }).filter (fun c : Msg =>
        matchMsgs (fun start i => start < i) u ss se rs re (toDoc c)) = [] := by
    rw [List.filter_eq_nil_iff]
    intro c hc hmatch
    obtain ⟨v, hv, rfl⟩ := List.mem_map.mp hc
    rw [matchMsgs_toDoc] at hmatch
    obtain ⟨he, -⟩ | ⟨-, hlt, -⟩ := hmatch
    · exact hsender (List.mem_map.mpr ⟨v, hv, he.trans hu.symm⟩)
    · simp only [decide_eq_true_eq] at hlt
      omega
  rw [seen, copies, groupCopies, List.filter_cons, hmembers]
  have hown : matchMsgs (fun start i => start < i) u ss se rs re (toDoc m) = true ↔
      ss < m.sendSeq ∧ m.sendSeq ≤ se := by
    rw [matchMsgs_toDoc]
    simp [hgroup, hu]
  change (if matchMsgs _ u ss se rs re (toDoc m) = true then [m] else []) = _
  simp only [hown]

/-- A member sees the copy that is addressed to it. -/
theorem seen_group_member {m : Msg} {members : List GroupMemSeq}
    (h : (group m members).Proper u) (hu : m.senderId ≠ u) :
    (group m members).seen u ss se rs re =
      (members.filter fun s => s.memId = u ∧ rs < s.curSeq ∧ s.curSeq ≤ re).map fun s =>
        { m with sendSeq := 0, seq := s.curSeq, receiverId := s.memId } := by
  have hsender : ¬ matchMsgs (fun start i => start < i) u ss se rs re
      (toDoc (senderCopy .plain m)) = true := by
    rw [matchMsgs_toDoc]
    simp [senderCopy, h.2.2, hu]
  rw [seen, copies, groupCopies, List.filter_cons, if_neg hsender, List.filter_map]
  congr 1
  apply List.filter_congr
  intro s _
  rw [Bool.eq_iff_iff, Function.comp, matchMsgs_toDoc]
  simp [hu]

theorem length_seen (s : Save) (h : s.Proper u) (hss : 0 ≤ ss) :
    (s.seen u ss se rs re).length ≤ 1 := by
  cases s with
  | single m => exact (List.length_filter_le _ _).trans (by simp [copies])
  | group m members =>
    by_cases hu : m.senderId = u
    · rw [seen_group_sender h hss hu]
      split <;> simp
    · rw [seen_group_member h hu, List.length_map]
      have hcount := List.nodup_iff_count_le_one.mp h.1 u
      rw [List.count, List.countP_map] at hcount
      rw [← List.countP_eq_length_filter]
      refine (List.countP_mono_left ?_).trans hcount
      intro s _ hs
      simp only [decide_eq_true_eq] at hs
      simp [hs.1]

theorem exists_mem_seen (s : Save) (h : s.Proper u) (hss : 0 ≤ ss) :
    (∃ c, c ∈ s.seen u ss se rs re) ↔ s.AddressedTo u rs re ∨ s.SentBy u ss se := by
  cases s with
  | single m => simp [seen, copies, matchMsgs_toDoc, AddressedTo, SentBy, message]
  | group m members =>
    by_cases hu : m.senderId = u
    · have hnone : ¬ (group m members).AddressedTo u rs re := by
        rintro ⟨s, hs, he, -⟩
        exact h.2.1 (List.mem_map.mpr ⟨s, hs, he.trans hu.symm⟩)
      rw [seen_group_sender h hss hu, or_iff_right hnone, SentBy]
      simp [message, hu]
    · rw [seen_group_member h hu]
      simp [AddressedTo, SentBy, message, hu]

end Save

namespace MsgBox

variable {cfg : Config} {w : World}

/-- Each message that the user is concerned with is returned once, and nothing else. -/
def SeenOnce (saves : List (Int × Save)) (userId : UserId) (sendStart sendEnd recStart recEnd : Int)
    (w : World) : Prop :=
  ∃ res, ((getMsgs userId sendStart sendEnd recStart recEnd).exec w).1 = .ok res ∧
    (res.map Msg.serverId).Nodup ∧
    (∀ k, k ∈ res.map Msg.serverId ↔ ∃ s ∈ saves, s.2.message.serverId = k ∧
      (s.2.AddressedTo userId recStart recEnd ∨ s.2.SentBy userId sendStart sendEnd)) ∧
    ∀ m ∈ res, ∃ s ∈ saves, ∃ c ∈ s.2.copies .plain, m = c.stored.shownTo userId

theorem seen_once_iff (hbox : cfg.box = .plain) (hw : w.EmptyInbox) (saves : List (Int × Save))
    (hids : (saves.map fun s => s.2.message.serverId).Nodup) (now : Int) (u : UserId)
    (hproper : ∀ s ∈ saves, s.2.Proper u) (ss se rs re : Int) (hss : 0 ≤ ss) :
    SeenOnce saves u ss se rs re ((w.afterSaves cfg saves).atTime now) ↔
      capacityFits (se - ss + (re - rs)) = true := by
  have hresult := getMsgs_result (w := (w.afterSaves cfg saves).atTime now) u ss se rs re
  constructor
  · rintro ⟨res, hres, -⟩
    by_contra hcap
    rw [hresult, if_neg hcap] at hres
    cases hres
  · intro hcap
    rw [if_pos hcap] at hresult
    have hperm : (msgsIn ((w.afterSaves cfg saves).atTime now) u ss se rs re).Perm
        (saves.flatMap fun s => (s.2.seen u ss se rs re).map fun m => m.stored.shownTo u) := by
      refine (msgsIn_afterSaves hbox hw saves now u ss se rs re).trans (.of_eq ?_)
      rw [List.filter_flatMap, List.map_flatMap]
      rfl
    have hkey : ∀ s ∈ saves, ∀ m ∈ (s.2.seen u ss se rs re).map fun m => m.stored.shownTo u,
        m.serverId = s.2.message.serverId := by
      intro s _ m hm
      obtain ⟨c, hc, rfl⟩ := List.mem_map.mp hm
      rw [Msg.shownTo_serverId]
      change c.serverId = _
      exact (Save.of_mem_copies (List.mem_filter.mp hc).1).1
    refine ⟨_, hresult, ?_, ?_, ?_⟩
    · rw [(hperm.map _).nodup_iff, Unique.nodup_flatMap_key hids hkey]
      intro s hs
      rw [List.length_map]
      exact s.2.length_seen (hproper s hs) hss
    · intro k
      rw [(hperm.map _).mem_iff, Unique.mem_flatMap_key hkey]
      apply exists_congr
      intro s
      apply and_congr_right
      intro hs
      apply and_congr_right
      intro _
      rw [← s.2.exists_mem_seen (hproper s hs) hss]
      simp
    · intro m hm
      rw [hperm.mem_iff] at hm
      obtain ⟨s, hs, hm⟩ := List.mem_flatMap.mp hm
      obtain ⟨c, hc, rfl⟩ := List.mem_map.mp hm
      exact ⟨s, hs, c, (List.mem_filter.mp hc).1, rfl⟩

end MsgBox

/-- One collection for everybody. -/
def Config.onePlain : Config := ⟨1, .plain, fun _ => 0⟩

/-- A message of `a` to the group `g`, which has `b` in it. -/
def circular : Msg :=
  { senderId := "a", receiverId := "g", groupId := "g", serverId := "m2", sendSeq := 2,
    msgType := MsgType.groupMsg.toI32 }

def circularTo (members : List GroupMemSeq) : List (Int × Save) :=
  [(0, .single letter), (0, .group circular members)]

namespace MsgBox

theorem seen_once_circular :
    SeenOnce (circularTo [⟨"b", 2, 10, false⟩]) "a" 0 10 0 10
      ((World.empty.afterSaves .onePlain (circularTo [⟨"b", 2, 10, false⟩])).atTime 0) :=
  (seen_once_iff rfl World.emptyInbox_empty (circularTo [⟨"b", 2, 10, false⟩]) (by decide) 0 "a"
    (by simp [circularTo, Save.Proper, circular]) 0 10 0 10 (by decide)).mpr (by decide)

/-- A range up to the largest number asks for a vector that cannot be allocated. -/
theorem seen_range_panics :
    ((circularTo [⟨"b", 2, 10, false⟩]).map fun s => s.2.message.serverId).Nodup ∧
    (∀ s ∈ circularTo [⟨"b", 2, 10, false⟩], s.2.Proper "b") ∧
    ¬ SeenOnce (circularTo [⟨"b", 2, 10, false⟩]) "b" 0 0 0 (2 ^ 63 - 1)
      ((World.empty.afterSaves .onePlain (circularTo [⟨"b", 2, 10, false⟩])).atTime 0) := by
  refine ⟨by decide, by simp [circularTo, Save.Proper, circular], ?_⟩
  rintro ⟨res, hres, -⟩
  rw [getMsgs_result, if_neg (by decide)] at hres
  cases hres

end MsgBox

end Sandcat
