import Sandcat.Filing
import Sandcat.Numbering
import Mathlib.Data.List.Count

/-!
# The numbers of the stored documents

Some copies of a message carry a number that Redis has just given out to their
receiver, the others keep the number that came with the message. The first kind
fills the inbox without gaps and without repetition; the second kind has to stay
clear of the numbers of the first.
-/

namespace Sandcat

open Remote Consecutive

namespace World

/-- A user's receive counter. -/
def recCur (w : World) (u : UserId) : Int := (w.redis.hashes (seqKey u)).cur

/-- The key of the next document that is numbered for a user. -/
def nextKey (w : World) (u : UserId) : InboxKey := (some u, some (w.recCur u + 1))

theorem nextKey_injective (w : World) : Function.Injective w.nextKey :=
  fun _ _ h => Option.some.inj (congrArg Prod.fst h)

theorem mem_map_nextKey {w : World} {us : List UserId} {u : UserId} {s : Int} :
    (some u, some s) ∈ us.map w.nextKey ↔ u ∈ us ∧ s = w.recCur u + 1 := by
  simp only [List.mem_map, nextKey, Prod.mk.injEq, Option.some.injEq]
  constructor
  · rintro ⟨v, hv, rfl, rfl⟩
    exact ⟨hv, rfl⟩
  · rintro ⟨hu, rfl⟩
    exact ⟨u, hu, rfl, rfl⟩

/-- A number that is not the next one is on none of the next documents. -/
theorem count_nextKey_of_ne (w : World) (us : List UserId) {u : UserId} {s : Int}
    (h : s ≠ w.recCur u + 1) : (us.map w.nextKey).count (some u, some s) = 0 := by
  rw [List.count_eq_zero, mem_map_nextKey]
  exact fun hm => h hm.2

theorem Drawn.recCur {seqStep : Int} {us : List UserId} {w t : World}
    (h : Drawn seqStep (us.map seqKey) w t) (u : UserId) :
    t.recCur u = w.recCur u + us.count u := by
  rw [World.recCur, h.hashes, bumps_cur,
    List.count_map_of_injective us seqKey fun _ _ => seqKey_inj.mp, World.recCur]

theorem Drawn.handed_user {seqStep : Int} {us : List UserId} {w t : World}
    (h : Drawn seqStep (us.map seqKey) w t) (u : UserId) :
    t.handed (seqKey u) = w.handed (seqKey u) ++ above (w.recCur u) (us.count u) := by
  rw [h.handed, List.count_map_of_injective us seqKey fun _ _ => seqKey_inj.mp, World.recCur]

end World

/-- The copies that are stored under the number that came with the message. -/
def unnumbered (box : Box) (mt : MsgType) (msg : Msg) : List Msg :=
  if mt = .read || isReceived msg.msgType || !Consumer.getSendToDbFlag mt then []
  else match Consumer.classifyMsgType mt with
    | (.single, true, _) => []
    | (.single, false, _) => [msg]
    | (.group, _, _) => if badRemoval msg then [] else [senderCopy box msg]

theorem groupSeqs_inboxKey (w : World) (seqStep : Int) {us : List UserId} (hn : us.Nodup) :
    (groupSeqs seqStep w.redis.hashes us).map GroupMemSeq.inboxKey = us.map w.nextKey := by
  rw [groupSeqs_eq_map _ _ hn, List.map_map]
  apply List.map_congr_left
  intro u _
  simp only [Function.comp, GroupMemSeq.inboxKey, World.nextKey, World.recCur, singleScript_reply_cur]

/-- What is stored of a message: the copies that keep its number, and one copy under the
next number of each user in `us`. -/
structure FiledFor (cfg : Config) (w : World) (mt : MsgType) (msg : Msg) (us : List UserId)
    (p : Msg × List GroupMemSeq) : Prop where
  msgType : p.1.msgType = msg.msgType
  keys : (Consumer.filedCopies cfg.box mt p.1 p.2).map Msg.inboxKey =
    (unnumbered cfg.box mt msg).map Msg.inboxKey ++ us.map w.nextKey

namespace Consumer

variable {cfg : Config} {w : World} {mt : MsgType} {msg : Msg}

/-- A message that keeps its number. -/
theorem filedFor_single (hk : (classifyMsgType mt).1 = .single)
    (hneed : (classifyMsgType mt).2.1 = false) (hread : mt ≠ .read) :
    FiledFor cfg w mt msg [] (msg, []) := by
  refine ⟨rfl, ?_⟩
  revert hk hneed
  unfold filedCopies storedCopies unnumbered
  generalize classifyMsgType mt = c
  obtain ⟨kind, need, hist⟩ := c
  rintro rfl rfl
  cases isReceived msg.msgType <;> cases getSendToDbFlag mt <;> simp [hread]

/-- A message that gets its receiver's next number. -/
theorem filedFor_numbered (hk : (classifyMsgType mt).1 = .single)
    (hneed : (classifyMsgType mt).2.1 = true) (ht : MsgType.tryFrom msg.msgType = some mt) :
    FiledFor cfg w mt msg (if getSendToDbFlag mt then [msg.receiverId] else [])
      ({ msg with seq := w.recCur msg.receiverId + 1 }, []) := by
  refine ⟨rfl, ?_⟩
  have hr : isReceived msg.msgType = false := by
    rw [MsgType.eq_toI32_of_tryFrom ht]
    revert hneed
    cases mt <;> decide
  revert hk hneed
  unfold filedCopies storedCopies unnumbered
  generalize classifyMsgType mt = c
  obtain ⟨kind, need, hist⟩ := c
  rintro rfl rfl
  cases getSendToDbFlag mt <;> simp [hr, World.nextKey, Msg.inboxKey]

/-- A group message. -/
theorem filedFor_group (hk : (classifyMsgType mt).1 = .group)
    (ht : MsgType.tryFrom msg.msgType = some mt) (hb : badRemoval msg = false)
    {us : List UserId} (hn : us.Nodup) :
    FiledFor cfg w mt msg us (msg, groupSeqs cfg.seqStep w.redis.hashes us) := by
  refine ⟨rfl, ?_⟩
  have hr := not_isReceived_group hk ht
  obtain ⟨-, hf, hread⟩ := classifyMsgType_group hk
  revert hk
  unfold filedCopies storedCopies unnumbered
  generalize classifyMsgType mt = c
  obtain ⟨kind, need, hist⟩ := c
  rintro rfl
  simp [hr, hf, hread, hb, groupCopies_inboxKey, groupSeqs_inboxKey w _ hn]

theorem inboxKeys_of_outsideNumbering {w t : World} (h : t.outsideNumbering = w.outsideNumbering) :
    t.inboxKeys = w.inboxKeys := (congrArg World.inboxKeys h :)

end Consumer

/-- The numbers and the documents match, and none of them is beyond the counter. -/
structure Matched (w : World) : Prop where
  once : ∀ u, ∀ s ∈ w.handed (seqKey u), w.inboxKeys.count (some u, some s) = 1
  handed : ∀ u, ∀ s ∈ w.handed (seqKey u), s ≤ w.recCur u
  stored : ∀ u s, (some u, some s) ∈ w.inboxKeys → s ≤ w.recCur u

theorem Matched.handle {w t : World} (h : Matched w) {seqStep : Int} {us : List UserId}
    {own : List Msg} (hn : us.Nodup) (hd : w.Drawn seqStep (us.map seqKey) t)
    (hkeys : t.inboxKeys = w.inboxKeys ++ (own.map Msg.inboxKey ++ us.map w.nextKey))
    (hown : ∀ c ∈ own, c.seq ≤ w.recCur c.receiverId ∧ c.seq ∉ w.handed (seqKey c.receiverId)) :
    Matched t := by
  have howned : ∀ u s, (some u, some s) ∈ own.map Msg.inboxKey →
      s ≤ w.recCur u ∧ s ∉ w.handed (seqKey u) := by
    intro u s hm
    obtain ⟨c, hc, hk⟩ := List.mem_map.mp hm
    cases hk
    exact hown c hc
  have hcount : ∀ u, us.count u ≤ 1 := fun u => List.nodup_iff_count_le_one.mp hn u
  have hsplit : ∀ u, ∀ s ∈ t.handed (seqKey u),
      s ∈ w.handed (seqKey u) ∨ s = w.recCur u + 1 ∧ us.count u = 1 := by
    intro u s hs
    rw [hd.handed_user, List.mem_append, mem_above] at hs
    obtain hs | hs := hs
    · exact .inl hs
    · have := hcount u
      exact .inr (by omega)
  refine ⟨?_, ?_, ?_⟩
  · intro u s hs
    rw [hkeys, List.count_append, List.count_append]
    obtain hs | ⟨rfl, hu⟩ := hsplit u s hs
    · have hle := h.handed u s hs
      rw [h.once u s hs, w.count_nextKey_of_ne us (by omega),
        List.count_eq_zero.mpr fun hm => (howned u s hm).2 hs]
    · have hnew : (us.map w.nextKey).count (some u, some (w.recCur u + 1)) = 1 :=
        (List.count_map_of_injective us w.nextKey w.nextKey_injective u).trans hu
      rw [hnew, List.count_eq_zero.mpr fun hm => by have := h.stored u _ hm; omega,
        List.count_eq_zero.mpr fun hm => by have := (howned u _ hm).1; omega]
  · intro u s hs
    rw [hd.recCur]
    obtain hs | ⟨rfl, hu⟩ := hsplit u s hs
    · have := h.handed u s hs
      omega
    · omega
  · intro u s hm
    rw [hkeys, List.mem_append, List.mem_append] at hm
    rw [hd.recCur]
    obtain hm | hm | hm := hm
    · have := h.stored u s hm
      omega
    · have := (howned u s hm).1
      omega
    · obtain ⟨hu, rfl⟩ := World.mem_map_nextKey.mp hm
      have := List.count_pos_iff.mpr hu
      omega

/-- A record that draws no number and stores nothing. -/
theorem Matched.idle {w t : World} (h : Matched w)
    (hhash : ∀ u, t.redis.hashes (seqKey u) = w.redis.hashes (seqKey u))
    (hhanded : ∀ u, t.handed (seqKey u) = w.handed (seqKey u))
    (hkeys : t.inboxKeys = w.inboxKeys) : Matched t := by
  have hcur : ∀ u, t.recCur u = w.recCur u := fun u => by rw [World.recCur, hhash, World.recCur]
  refine ⟨?_, ?_, ?_⟩
  · intro u s hs
    rw [hkeys]
    exact h.once u s (hhanded u ▸ hs)
  · intro u s hs
    rw [hcur]
    exact h.handed u s (hhanded u ▸ hs)
  · intro u s hm
    rw [hcur]
    exact h.stored u s (hkeys ▸ hm)

/-- An acknowledgement touches the read marks only. -/
theorem Consumer.frame_handleMsgRead_keys (cfg : Config) (msg : Msg) :
    Prog.Frame World.inboxKeys (handleMsgRead cfg msg) := by
  unfold handleMsgRead
  split
  · exact MsgRecBox.frame_msgRead_keys _ _ _
  · exact Prog.frame_raise _

/-- The start of a call. -/
def call : Msg := { hello with msgType := MsgType.connectSingleCall.toI32 }

section Faulty

variable {cfg : Config} {w t : World} {mt : MsgType} {msg : Msg}

namespace Consumer

/-- The number of a message is the next one of its receiver. -/
theorem faulty_increaseMessageSeq {u : UserId} {n : Int}
    (h : Prog.Faulty (increaseMessageSeq cfg u) w (.ok n) t) :
    n = w.recCur u + 1 ∧ t.redis.hashes = bumps cfg.seqStep w.redis.hashes [seqKey u] := by
  obtain ⟨reply, w₁, h₁, h⟩ := Prog.faulty_bind_ok h
  obtain ⟨-, e, he⟩ | ⟨rfl, hr | ⟨e, he⟩⟩ := Cache.faulty_evalSingle h₁
  · cases he
  · cases hr
    obtain ⟨_, w₂, h₂, h⟩ := Prog.faulty_bind_ok h
    cases h
    have hredis := Prog.frame_faulty (f := fun w : World => w.redis)
      (Prog.frame_onlyIf (Prog.frame_void (frame_pgCall (fun _ _ => rfl) _))) h₂
    exact ⟨singleScript_reply_cur _ _, by rw [hredis]; rfl⟩
  · cases he

/-- The members are distinct, wherever they come from. -/
theorem faulty_getMembersId {g : GroupId} {list : List UserId}
    (h : Prog.Faulty (getMembersId g) w (.ok list) t) : list.Nodup := by
  obtain ⟨cached, w₁, h₁, h⟩ := Prog.faulty_bind_ok h
  cases Prog.faulty_request_ok h₁
  split at h
  · cases h
    exact (w.redis.members g).nodup
  · obtain ⟨members, w₂, h₂, h⟩ := Prog.faulty_bind_ok h
    cases Prog.faulty_request_ok h₂
    obtain ⟨_, w₃, -, h⟩ := Prog.faulty_bind_ok h
    cases h
    exact w.pg.nodup_membersOf g

theorem hashes_of_outsideSets (h : t.outsideSets = w.outsideSets) :
    t.redis.hashes = w.redis.hashes := (congrArg (fun w => w.redis.hashes) h :)

/-- A removal that names nobody does not get past the cache. -/
theorem faulty_updateCachedMembers (h : Prog.Faulty (updateCachedMembers msg) w (.ok ()) t) :
    badRemoval msg = false := by
  unfold updateCachedMembers at h
  split at h
  · rename_i hm
    simp [badRemoval, hm]
  · split at h
    · rename_i hm
      simp [badRemoval, hm]
    · split at h
      · cases hd : decodeIds msg.content with
        | none => rw [hd] at h; cases h
        | some ids =>
          rw [hd] at h
          dsimp only [Cache.removeGroupMemberBatch] at h
          split at h
          · cases h
          · rename_i hne
            simp [badRemoval, hd, hne]
      · rename_i hm
        simp [badRemoval, hm]

theorem faulty_handleGroupSeq {members : List GroupMemSeq}
    (h : Prog.Faulty (handleGroupSeq cfg .group msg) w (.ok members) t) :
    badRemoval msg = false ∧ ∃ us : List UserId, us.Nodup ∧
      members = groupSeqs cfg.seqStep w.redis.hashes us ∧
      t.redis.hashes = bumps cfg.seqStep w.redis.hashes (us.map seqKey) := by
  obtain ⟨list, w₁, h₁, h⟩ := Prog.faulty_bind_ok h
  obtain ⟨seq, w₂, h₂, h⟩ := Prog.faulty_bind_ok h
  obtain ⟨_, w₃, h₃, h⟩ := Prog.faulty_bind_ok h
  cases h
  have hw₁ := hashes_of_outsideSets (Prog.frame_faulty (frame_getMembersId _) h₁)
  have hw₃ := hashes_of_outsideSets (Prog.frame_faulty (frame_updateCachedMembers _) h₃)
  obtain ⟨-, e, he⟩ | ⟨rfl, hr | ⟨e, he⟩⟩ := Cache.faulty_incrGroupSeq h₂
  · cases he
  · cases hr
    refine ⟨faulty_updateCachedMembers h₃, _, (faulty_getMembersId h₁).filter _, by rw [hw₁], ?_⟩
    rw [hw₃, World.bumped_hashes, hw₁]
  · cases he

theorem recCur_of_bumps {us : List UserId}
    (h : t.redis.hashes = bumps cfg.seqStep w.redis.hashes (us.map seqKey)) (u : UserId)
    (hu : u ∈ us) : w.recCur u + 1 ≤ t.recCur u := by
  have hpos := List.count_pos_iff.mpr (List.mem_map_of_mem (f := seqKey) hu)
  simp only [World.recCur, h, bumps_cur]
  omega

/-- What a message is numbered with, whatever calls were lost before. -/
theorem faulty_numberMsg (ht : MsgType.tryFrom msg.msgType = some mt) (hread : mt ≠ .read)
    {p : Msg × List GroupMemSeq} (h : Prog.Faulty (numberMsg cfg mt msg) w (.ok p) t) :
    ∃ us : List UserId, us.Nodup ∧ FiledFor cfg w mt msg us p ∧
      ∀ u ∈ us, w.recCur u + 1 ≤ t.recCur u := by
  have hsingle := @filedFor_single cfg w mt msg
  have hnumbered := @filedFor_numbered cfg w mt msg
  have hgroup := @filedFor_group cfg w mt msg
  have hneed : (classifyMsgType mt).1 = .group → (classifyMsgType mt).2.1 = false :=
    fun h => (classifyMsgType_group h).1
  unfold numberMsg at h
  generalize classifyMsgType mt = c at hsingle hnumbered hgroup hneed h
  obtain ⟨kind, need, hist⟩ := c
  obtain ⟨_, w₁, h₁, h⟩ := Prog.faulty_bind_ok h
  obtain ⟨m, w₂, h₂, h⟩ := Prog.faulty_bind_ok h
  obtain ⟨members, w₃, h₃, h⟩ := Prog.faulty_bind_ok h
  cases h
  have hw₁ : w₁.redis = w.redis :=
    Prog.frame_faulty (frame_handleSendSeq (fun _ _ => rfl) cfg _) h₁
  have hcur : ∀ u, w₁.recCur u = w.recCur u := fun u => by rw [World.recCur, hw₁, World.recCur]
  cases kind with
  | single =>
    cases h₃
    cases need with
    | false =>
      cases h₂
      exact ⟨[], List.nodup_nil, hsingle rfl rfl hread, by simp⟩
    | true =>
      obtain ⟨n, w₂, h₂, h'⟩ := Prog.faulty_bind_ok h₂
      cases h'
      obtain ⟨rfl, hhash⟩ := faulty_increaseMessageSeq h₂
      rw [hcur]
      refine ⟨_, ?_, hnumbered rfl rfl ht, ?_⟩
      · split
        · exact List.nodup_singleton _
        · exact List.nodup_nil
      · intro u hu
        have hu' : u ∈ [msg.receiverId] := by
          split at hu
          · exact hu
          · cases hu
        rw [← hcur]
        exact recCur_of_bumps hhash u hu'
  | group =>
    obtain rfl := hneed rfl
    cases h₂
    obtain ⟨hb, us, hn, rfl, hhash⟩ := faulty_handleGroupSeq h₃
    rw [hw₁] at hhash ⊢
    exact ⟨us, hn, hgroup rfl ht hb hn, recCur_of_bumps hhash⟩

end Consumer

/-- Runs in which any call may be lost, on an inbox that is empty at first. The other
processes may delete documents. -/
inductive FiledWithLosses (cfg : Config) (allowed : World → Payload → Prop) : World → Prop where
  | start {w : World} : w.inbox = [] → FiledWithLosses cfg allowed w
  | handle {w t : World} {r : Except Error Unit} (payload : Payload) :
      FiledWithLosses cfg allowed w → allowed w payload →
      Prog.Faulty (Consumer.handleMsg cfg payload) w r t → FiledWithLosses cfg allowed t
  | others {w t : World} : FiledWithLosses cfg allowed w →
      (∀ u, t.redis.hashes (seqKey u) = w.redis.hashes (seqKey u)) →
      t.inboxKeys.Sublist w.inboxKeys → FiledWithLosses cfg allowed t

/-- The documents under other keys. -/
def World.inboxWithout (w : World) (key : InboxKey) : List Document :=
  w.inbox.filter (·.inboxKey ≠ key)

/-- A positive number is on at most one document of a user, and a deletion or an
acknowledgement of it touches no other document. -/
def NoRepeats (cfg : Config) (allowed : World → Payload → Prop) : Prop :=
  ∀ w, FiledWithLosses cfg allowed w → ∀ u s, 0 < s →
    w.inboxKeys.count (some u, some s) ≤ 1 ∧
      (∀ r t, Prog.Faulty (MsgRecBox.deleteMessages cfg u [s]) w r t →
        t.inboxWithout (some u, some s) = w.inboxWithout (some u, some s)) ∧
      ∀ r t, Prog.Faulty (MsgRecBox.msgRead cfg u [s]) w r t →
        t.inboxWithout (some u, some s) = w.inboxWithout (some u, some s)

/-- A copy that keeps its number keeps one that is not positive, or one behind the counter
of its receiver that no document has. -/
def HarmlessRecord (cfg : Config) (w : World) (payload : Payload) : Prop :=
  ∀ msg mt, payload = .json msg → MsgType.tryFrom msg.msgType = some mt →
    ∀ c ∈ unnumbered cfg.box mt msg,
      c.seq ≤ 0 ∨ c.seq ≤ w.recCur c.receiverId ∧ c.inboxKey ∉ w.inboxKeys

/-- Positive numbers are not repeated, and none is beyond the counter. -/
structure Unrepeated (w : World) : Prop where
  once : ∀ u s, 0 < s → w.inboxKeys.count (some u, some s) ≤ 1
  stored : ∀ u s, 0 < s → (some u, some s) ∈ w.inboxKeys → s ≤ w.recCur u

theorem Unrepeated.handle (h : Unrepeated w) {us : List UserId} {own : List Msg} (hn : us.Nodup)
    (hmono : ∀ u, w.recCur u ≤ t.recCur u) (hcur : ∀ u ∈ us, w.recCur u + 1 ≤ t.recCur u)
    (hkeys : t.inboxKeys.Sublist (w.inboxKeys ++ (own.map Msg.inboxKey ++ us.map w.nextKey)))
    (hlen : own.length ≤ 1) (hown : ∀ c ∈ own,
      c.seq ≤ 0 ∨ c.seq ≤ w.recCur c.receiverId ∧ c.inboxKey ∉ w.inboxKeys) :
    Unrepeated t := by
  have howned : ∀ u s, 0 < s → (some u, some s) ∈ own.map Msg.inboxKey →
      s ≤ w.recCur u ∧ (some u, some s) ∉ w.inboxKeys := by
    intro u s hs hm
    obtain ⟨c, hc, hk⟩ := List.mem_map.mp hm
    cases hk
    obtain hle | h := hown c hc
    · omega
    · exact h
  refine ⟨?_, ?_⟩
  · intro u s hs
    refine (hkeys.count_le _).trans ?_
    rw [List.count_append, List.count_append]
    by_cases hle : s ≤ w.recCur u
    · rw [w.count_nextKey_of_ne us (by omega)]
      by_cases hm : (some u, some s) ∈ own.map Msg.inboxKey
      · have hone : (own.map Msg.inboxKey).count (some u, some s) ≤ own.length :=
          List.count_le_length.trans_eq (List.length_map _)
        rw [List.count_eq_zero.mpr (howned u s hs hm).2]
        omega
      · rw [List.count_eq_zero.mpr hm]
        exact h.once u s hs
    · have hnew : (us.map w.nextKey).count (some u, some s) ≤ 1 :=
        List.nodup_iff_count_le_one.mp (hn.map w.nextKey_injective) _
      rw [List.count_eq_zero.mpr fun hm => hle (h.stored u s hs hm),
        List.count_eq_zero.mpr fun hm => hle (howned u s hs hm).1]
      omega
  · intro u s hs hm
    have hm := hkeys.subset hm
    rw [List.mem_append, List.mem_append] at hm
    obtain hm | hm | hm := hm
    · exact (h.stored u s hs hm).trans (hmono u)
    · exact (howned u s hs hm).1.trans (hmono u)
    · obtain ⟨hu, rfl⟩ := World.mem_map_nextKey.mp hm
      exact hcur u hu

theorem recCur_kept (w : World) : Kept cfg fun t => ∀ u, w.recCur u ≤ t.recCur u where
  mongo _ _ h := h
  push _ _ _ h := h
  sets _ _ h := h
  history _ _ h := h
  recMax _ _ h := h
  script t us h := by
    intro u
    refine (h u).trans ?_
    rw [World.recCur, World.recCur, World.bumped_hashes, bumps_cur]
    omega

theorem Unrepeated.idle (h : Unrepeated w) (hmono : ∀ u, w.recCur u ≤ t.recCur u)
    (hkeys : t.inboxKeys.Sublist w.inboxKeys) : Unrepeated t := by
  have hkeys' : t.inboxKeys.Sublist
      (w.inboxKeys ++ (([] : List Msg).map Msg.inboxKey ++ ([] : List UserId).map w.nextKey)) := by
    rwa [List.map_nil, List.map_nil, List.append_nil, List.append_nil]
  exact h.handle List.nodup_nil hmono (by simp) hkeys' (by simp) (by simp)

theorem length_unnumbered (box : Box) (mt : MsgType) (msg : Msg) :
    (unnumbered box mt msg).length ≤ 1 := by
  unfold unnumbered
  split
  · simp
  · split
    · simp
    · simp
    · split <;> simp

theorem hashes_kept (c : String → SeqHash) : KeptByTasks cfg fun t => t.redis.hashes = c where
  mongo _ _ h := h
  push _ _ _ h := h
  history _ _ h := h
  recMax _ _ h := h

theorem unrepeated_typed {r : Except Error Unit} (h : Unrepeated w)
    (ht : MsgType.tryFrom msg.msgType = some mt) (hread : mt ≠ .read)
    (hown : ∀ c ∈ unnumbered cfg.box mt msg,
      c.seq ≤ 0 ∨ c.seq ≤ w.recCur c.receiverId ∧ c.inboxKey ∉ w.inboxKeys)
    (hmono : ∀ u, w.recCur u ≤ t.recCur u)
    (hf : Prog.Faulty (Consumer.numberMsg cfg mt msg >>= fun p => Consumer.dispatch cfg mt p.1 p.2)
      w r t) : Unrepeated t := by
  have hnumbering : ∀ {r u}, Prog.Faulty (Consumer.numberMsg cfg mt msg) w r u →
      u.inboxKeys = w.inboxKeys := fun hf =>
    Consumer.inboxKeys_of_outsideNumbering (Prog.frame_faulty (frame_numberMsg mt msg) hf)
  obtain ⟨p, w₁, h₁, h₂⟩ | ⟨e, h₁, -⟩ := Prog.faulty_bind hf
  · obtain ⟨us, hn, hfiled, hcur⟩ := Consumer.faulty_numberMsg ht hread h₁
    have hkeys := Consumer.adds_dispatch cfg p.1 p.2 (by rw [hfiled.msgType, ht]) _ _ _ h₂
    rw [hnumbering h₁, hfiled.keys] at hkeys
    have hhash := Prog.stable_faulty ((hashes_kept w₁.redis.hashes).dispatch mt p.1 p.2) h₂ rfl
    refine h.handle hn hmono ?_ hkeys (length_unnumbered _ _ _) hown
    intro u hu
    rw [World.recCur, World.recCur, hhash]
    exact hcur u hu
  · exact h.idle hmono (hnumbering h₁ ▸ List.Sublist.refl _)

theorem unrepeated_handleMsg {payload : Payload} {r : Except Error Unit} (h : Unrepeated w)
    (hharm : HarmlessRecord cfg w payload)
    (hf : Prog.Faulty (Consumer.handleMsg cfg payload) w r t) : Unrepeated t := by
  have hmono : ∀ u, w.recCur u ≤ t.recCur u :=
    Prog.stable_faulty ((recCur_kept w).handleMsg payload) hf fun _ => Int.le_refl _
  revert hharm hf
  apply Consumer.handleMsg_cases (P := fun payload m => HarmlessRecord cfg w payload →
    Prog.Faulty m w r t → Unrepeated t) cfg
  · rintro _ _ ⟨⟩
    exact h
  · rintro _ _ _ _ ⟨⟩
    exact h
  · intro msg _ _ hf
    have hkeys := Prog.frame_faulty (Consumer.frame_handleMsgRead_keys cfg msg) hf
    exact h.idle hmono (hkeys ▸ List.Sublist.refl _)
  · intro msg mt ht hread hharm hf
    exact unrepeated_typed h ht hread (hharm msg mt rfl ht) hmono hf

theorem FiledWithLosses.unrepeated (h : FiledWithLosses cfg (HarmlessRecord cfg) w) :
    Unrepeated w := by
  induction h with
  | @start w hinbox =>
    have hkeys : w.inboxKeys = [] := by rw [World.inboxKeys, hinbox, List.map_nil]
    exact ⟨fun u s _ => by simp [hkeys], fun u s _ hm => by simp [hkeys] at hm⟩
  | handle payload _ hharm hf ih => exact unrepeated_handleMsg ih hharm hf
  | others _ hhash hkeys ih =>
    refine ih.idle ?_ hkeys
    intro u
    rw [World.recCur, World.recCur, hhash]

section Touched

variable (u : UserId) (s : Int)

theorem addressed_inboxKey {coll : String} {q : String × Document}
    (h : Mongo.addressed coll u [s] q = true) : q.2.inboxKey = (some u, some s) := by
  simp only [Mongo.addressed, decide_eq_true_eq, List.map_cons, List.map_nil,
    List.mem_singleton] at h
  rw [Document.inboxKey, h.2.1, h.2.2]

theorem seesDocs_inboxWithout (key : InboxKey) : SeesDocs fun w => w.inboxWithout key := by
  intro w mongo h
  simp only [World.inboxWithout, World.inbox, h]

/-- Documents with the key may go, or be replaced by others with it. -/
theorem without_filterMap {key : InboxKey} (docs : List (String × Document))
    (g : String × Document → Option (String × Document))
    (h : ∀ q, g q = some q ∨ q.2.inboxKey = key ∧ ∀ r, g q = some r → r.2.inboxKey = key) :
    ((docs.filterMap g).map Prod.snd).filter (·.inboxKey ≠ key) =
      (docs.map Prod.snd).filter (·.inboxKey ≠ key) := by
  induction docs with
  | nil => rfl
  | cons q docs ih =>
    obtain hq | ⟨hkey, hg⟩ := h q
    · rw [List.filterMap_cons_some hq, List.map_cons, List.map_cons, List.filter_cons, List.filter_cons,
        ih]
    · rw [List.map_cons, List.filter_cons_of_neg (by simp [hkey]), ← ih]
      cases hr : g q with
      | none => rw [List.filterMap_cons_none hr]
      | some r =>
        rw [List.filterMap_cons_some hr, List.map_cons, List.filter_cons_of_neg (by simp [hg r hr])]

theorem frame_deleteMessages_without : Prog.Frame (fun w => w.inboxWithout (some u, some s))
    (MsgRecBox.deleteMessages cfg u [s]) := by
  apply MsgRecBox.frame_deleteMessages (seesDocs_inboxWithout _)
  intro w coll
  simp only [World.inboxWithout, World.inbox, Mongo.deleteMany]
  rw [← List.filterMap_eq_filter (p := fun q => !Mongo.addressed coll u [s] q)]
  refine without_filterMap _ _ fun q => ?_
  cases hq : Mongo.addressed coll u [s] q with
  | true => exact .inr ⟨addressed_inboxKey u s hq, by simp [Option.guard, hq]⟩
  | false => exact .inl (by simp [Option.guard, hq])

theorem frame_msgRead_without : Prog.Frame (fun w => w.inboxWithout (some u, some s))
    (MsgRecBox.msgRead cfg u [s]) := by
  apply MsgRecBox.frame_msgRead (seesDocs_inboxWithout _)
  intro w coll
  simp only [World.inboxWithout, World.inbox, Mongo.setRead]
  rw [← List.filterMap_eq_map (f := fun q =>
    if Mongo.addressed coll u [s] q then (q.1, q.2.set .isRead (.bool true)) else q)]
  refine without_filterMap _ _ fun q => ?_
  cases hq : Mongo.addressed coll u [s] q with
  | true =>
    have hkey := addressed_inboxKey u s hq
    refine .inr ⟨hkey, fun r hr => ?_⟩
    simp only [Function.comp_apply, hq, if_true, Option.some.injEq] at hr
    rw [← hr, Document.inboxKey_set_isRead, hkey]
  | false => exact .inl (by simp [hq])

end Touched

/-- As long as no copy keeps a number that its receiver has or can still get, no positive
number is repeated in an inbox. -/
theorem inbox_numbers_unique (cfg : Config) : NoRepeats cfg (HarmlessRecord cfg) := by
  intro w hw u s hs
  refine ⟨hw.unrepeated.once u s hs, ?_, ?_⟩
  · intro r t hf
    exact Prog.frame_faulty (frame_deleteMessages_without u s) hf
  · intro r t hf
    exact Prog.frame_faulty (frame_msgRead_without u s) hf

/-- A notification that comes with the number one. -/
def notice : Msg := { hello with msgType := MsgType.notification.toI32, seq := 1 }

/-- The two notifications are stored under the same number. -/
theorem inbox_number_repeated : ¬ NoRepeats .small fun _ _ => True := by
  intro h
  have hfirst : FiledWithLosses .small (fun _ _ => True)
      ((Consumer.handleMsg .small (.json notice)).after oneGateway) :=
    .handle (.json notice) (.start rfl) trivial (Prog.faulty_exec _ _)
  have hsecond := hfirst.handle (.json notice) trivial (Prog.faulty_exec _ _)
  have hcount := (h _ hsecond "b" 1 (by decide)).1
  exact absurd hcount (by decide)

end Faulty

end Sandcat
