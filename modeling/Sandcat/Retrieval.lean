import Sandcat.Received
import Sandcat.Producer

/-!
# Pulling a message back

The chat service stamps a message in milliseconds and the sharded box reads the
stamp as seconds. The month that the writer computes is thousands of years ahead
of the months that a reader looks at, unless the stamp lies in the first minutes
of 1970, or so far ahead that no date exists for it and the writer takes its own
clock instead.
-/

namespace Sandcat

open Remote

namespace Chrono

/-- The first second that is after the last date of the calendar. -/
def endOfCalendar : Int := 8210266876800

theorem yearMonth_endOfCalendar : yearMonth (endOfCalendar / 86400 - 1) = (262142, 12) ∧
    yearMonth (endOfCalendar / 86400) = (262143, 1) := by
  decide

theorem fromTimestamp_of_lt {secs : Int} (h₀ : 0 ≤ secs) (h : secs < endOfCalendar) :
    fromTimestamp secs = some (yearMonth (secs / 86400)) := by
  have hday : secs / 86400 ≤ endOfCalendar / 86400 - 1 := by
    rw [endOfCalendar] at *
    omega
  have hhigh := monthIndex_mono hday
  have hlow : monthIndex (yearMonth 0) ≤ monthIndex (yearMonth (secs / 86400)) :=
    monthIndex_mono (by omega)
  have hzero : yearMonth 0 = (1970, 1) := by decide
  have hmonth := isMonth_yearMonth (secs / 86400)
  rw [yearMonth_endOfCalendar.1] at hhigh
  rw [hzero] at hlow
  rw [IsMonth] at hmonth
  simp only [monthIndex] at hlow hhigh
  exact if_pos ⟨by omega, by omega⟩

theorem fromTimestamp_of_ge {secs : Int} (h : endOfCalendar ≤ secs) : fromTimestamp secs = none := by
  have hday : endOfCalendar / 86400 ≤ secs / 86400 := by
    rw [endOfCalendar] at *
    omega
  have hlow := monthIndex_mono hday
  have hmonth := isMonth_yearMonth (secs / 86400)
  rw [yearMonth_endOfCalendar.2] at hlow
  rw [IsMonth] at hmonth
  simp only [monthIndex] at hlow
  exact if_neg fun hyear => by omega

/-- The last second of January 1970. -/
theorem monthOf_january {secs : Int} (h₀ : 0 ≤ secs) (h : secs < 2678400) : monthOf secs = 23640 := by
  have hlow := monthOf_mono h₀
  have hhigh : monthOf secs ≤ monthOf 2678399 := monthOf_mono (by omega)
  have hzero : monthOf 0 = 23640 := by decide
  have hlast : monthOf 2678399 = 23640 := by decide
  omega

/-- Milliseconds taken for seconds are in the right month during January 1970 only. -/
theorem monthOf_millis_iff {millis : Int} (h : 0 ≤ millis) :
    monthOf millis = monthOf (millis / 1000) ↔ millis < 2678400 := by
  constructor
  · intro he
    have hday := lt_of_same_month he.symm
    omega
  · intro hlt
    rw [monthOf_january h hlt, monthOf_january (by omega) (by omega)]

theorem monthOf_millis_le {millis : Int} (h : 0 ≤ millis) : monthOf (millis / 1000) ≤ monthOf millis :=
  monthOf_mono (by omega)

end Chrono

namespace HybridShardedMsgBox

variable {cfg : Config} {n : Nat} {w : World}

/-- The writer's month for a stamp that the calendar has. -/
theorem monthIndex_writeMonth {saved stamp : Int} (h₀ : 0 ≤ stamp) (h : stamp < Chrono.endOfCalendar) :
    Chrono.monthIndex (writeMonth saved stamp) = Chrono.monthOf stamp := by
  rw [writeMonth, Chrono.fromTimestamp_of_lt h₀ h]
  rfl

/-- The writer's month for a stamp that the calendar does not have. -/
theorem monthIndex_writeMonth_fallback {saved stamp : Int} (h : Chrono.endOfCalendar ≤ stamp) :
    Chrono.monthIndex (writeMonth saved stamp) = Chrono.monthOf (saved / 1000) := by
  rw [writeMonth, Chrono.fromTimestamp_of_ge h]
  rfl

/-- A stamp for which writers and readers meet. -/
def StampWorks (stamp : Int) : Prop := stamp < 2678400 ∨ Chrono.endOfCalendar ≤ stamp

instance (stamp : Int) : Decidable (StampWorks stamp) := inferInstanceAs (Decidable (_ ∨ _))

/-- Writers and readers compute the same collection in the stamp's month and the two after
it. -/
theorem stampWorks_iff {stamp : Int} (h : 0 ≤ stamp) :
    StampWorks stamp ↔ ∀ saved now, stamp ≤ saved → saved ≤ now →
      Chrono.monthOf (now / 1000) ≤ Chrono.monthOf (stamp / 1000) + 2 →
      InWindow now (writeMonth saved stamp) := by
  constructor
  · intro hworks saved now hsaved hnow hmonths
    have hstart : Chrono.monthOf (stamp / 1000) ≤ Chrono.monthOf (saved / 1000) :=
      Chrono.monthOf_mono (by omega)
    have hend : Chrono.monthOf (saved / 1000) ≤ Chrono.monthOf (now / 1000) :=
      Chrono.monthOf_mono (by omega)
    rw [InWindow]
    by_cases hlast : Chrono.endOfCalendar ≤ stamp
    · rw [monthIndex_writeMonth_fallback hlast]
      omega
    · rw [monthIndex_writeMonth h (by omega)]
      have hsame := (Chrono.monthOf_millis_iff h).mpr (hworks.resolve_right hlast)
      omega
  · intro hall
    by_contra hfails
    rw [StampWorks, not_or] at hfails
    have hwindow := hall stamp stamp (le_refl _) (le_refl _) (by omega)
    rw [InWindow, monthIndex_writeMonth h (by omega)] at hwindow
    have hle := Chrono.monthOf_millis_le h
    exact hfails.1 ((Chrono.monthOf_millis_iff h).mp (by omega))

/-- The message as it is saved: stamped by the chat service and numbered by the consumer. -/
def asSaved (nanoid : String) (stamp : Int) (seq : Int) (m : Msg) : Msg :=
  { Producer.stamp nanoid stamp m with seq }

@[simp] theorem asSaved_sendTime (nanoid : String) (stamp seq : Int) (m : Msg) :
    (asSaved nanoid stamp seq m).sendTime = stamp := rfl

@[simp] theorem asSaved_seq (nanoid : String) (stamp seq : Int) (m : Msg) :
    (asSaved nanoid stamp seq m).seq = seq := rfl

/-- The documents of a message have not changed since a world. -/
def KeepsDocs (serverId : String) (w v : World) : Prop :=
  ∀ p : String × Document, p.2.getStr .serverId = some serverId →
    (p ∈ v.mongo.docs ↔ p ∈ w.mongo.docs)

/-- However late a message is saved, and however late its receiver asks for it in the month of
its stamp and the two after it, the collections are the same and the message is returned. -/
def PulledBack (cfg : Config) (userShards : Nat) (w : World) (message : Msg)
    (sendStart sendEnd recStart recEnd : Int) : Prop :=
  ∀ saved now, message.sendTime ≤ saved → saved ≤ now →
    Chrono.monthOf (now / 1000) ≤ Chrono.monthOf (message.sendTime / 1000) + 2 →
    shelf cfg userShards saved message.receiverId message.sendTime ∈
      readNames cfg userShards now message.receiverId ∧
    ∀ v : World, v.mongo.Sound →
      KeepsDocs message.serverId ((saveMessage cfg userShards message).after (w.atTime saved)) v →
      ∃ res, ((getMsgs cfg userShards message.receiverId sendStart sendEnd recStart recEnd).exec
        (v.atTime now)).1 = .ok res ∧ message.stored.shownTo message.receiverId ∈ res

/-- A message with a new identifier is stored. -/
theorem docs_saveMessage (hn : n ≠ 0) (h : w.mongo.Sound) {message : Msg}
    (hfresh : ∀ p ∈ w.mongo.docs, p.2.getStr .serverId ≠ some message.serverId) (saved : Int) :
    ((saveMessage cfg n message).after (w.atTime saved)).mongo.docs = w.mongo.docs ++
      [(shelf cfg n saved message.receiverId message.sendTime, toDoc message)] := by
  have hnew : Mongo.docKey (shelf cfg n saved message.receiverId message.sendTime, toDoc message) ∉
      w.mongo.docs.map Mongo.docKey := by
    intro hk
    obtain ⟨p, hp, he⟩ := List.mem_map.mp hk
    exact hfresh p hp (congrArg (fun k => k.2.1) he)
  rw [after_saveMessage hn (w := w.atTime saved) h, World.onMongo_mongo, Mongo.docs_filed]
  exact Unique.enter_of_notMem hnew

/-- A stored message is returned by a query that reads its collection. -/
theorem mem_msgsIn {v : World} {message : Msg} {saved : Int} (hnow : 0 ≤ v.now)
    (hmem : (shelf cfg n saved message.receiverId message.sendTime, toDoc message) ∈ v.mongo.docs)
    (hread : shelf cfg n saved message.receiverId message.sendTime ∈
      readNames cfg n v.now message.receiverId) {rs re : Int}
    (hrange : rs ≤ message.seq ∧ message.seq ≤ re) (ss se : Int) :
    message.stored.shownTo message.receiverId ∈ msgsIn cfg n v message.receiverId ss se rs re := by
  rw [(msgsIn_perm hnow message.receiverId ss se rs re).mem_iff]
  refine List.mem_map.mpr ⟨_, List.mem_filter.mpr ⟨hmem, ?_⟩, rfl⟩
  rw [Bool.and_eq_true]
  refine ⟨by simpa using hread, ?_⟩
  simp [matchMsgs, Document.holds, hrange.1, hrange.2]

/-- A message that has been sent and saved can be pulled back exactly if its stamp, read as
seconds, still leads to the right month. -/
theorem pulled_back_iff (h : w.mongo.Sound) (nanoid : String) (m : Msg) (stamp seq : Int)
    (hstamp : 0 ≤ stamp) (hfresh : ∀ p ∈ w.mongo.docs,
      p.2.getStr .serverId ≠ some (asSaved nanoid stamp seq m).serverId)
    (ss se rs re : Int) (hrange : rs ≤ seq ∧ seq ≤ re) :
    PulledBack cfg n w (asSaved nanoid stamp seq m) ss se rs re ↔
      n ≠ 0 ∧ capacityFits (se - ss + (re - rs)) = true ∧ StampWorks stamp := by
  have hsoon : Chrono.monthOf (stamp / 1000) ≤ Chrono.monthOf (stamp / 1000) + 2 := by omega
  by_cases hn : n = 0
  · subst hn
    refine ⟨?_, fun hall => absurd rfl hall.1⟩
    intro hback
    obtain ⟨-, hback⟩ := hback stamp stamp (le_refl _) (le_refl _) hsoon
    obtain ⟨res, hres, -⟩ := hback _ h fun _ _ => .rfl
    rw [getMsgs_zero] at hres
    cases hres
  constructor
  · intro hback
    refine ⟨hn, ?_, ?_⟩
    · obtain ⟨-, hback⟩ := hback stamp stamp (le_refl _) (le_refl _) hsoon
      have hsound : ((saveMessage cfg n (asSaved nanoid stamp seq m)).after
          (w.atTime stamp)).mongo.Sound := by
        rw [after_saveMessage hn (w := w.atTime stamp) h]
        exact h.filed _
      obtain ⟨res, hres, -⟩ := hback _ hsound fun _ _ => .rfl
      by_contra hcap
      rw [getMsgs_result cfg hn (by exact hsound), if_neg hcap] at hres
      cases hres
    · rw [stampWorks_iff hstamp]
      intro saved now hsaved hnow hmonths
      have hread := (hback saved now hsaved hnow hmonths).1
      rw [shelf_mem_readNames (by omega)] at hread
      exact hread.2
  · rintro ⟨-, hcap, hworks⟩ saved now hsaved hnow hmonths
    have hwindow := (stampWorks_iff hstamp).mp hworks saved now hsaved hnow hmonths
    have hnow₀ : 0 ≤ now := hstamp.trans (hsaved.trans hnow)
    have hread : shelf cfg n saved (asSaved nanoid stamp seq m).receiverId stamp ∈
        readNames cfg n now (asSaved nanoid stamp seq m).receiverId :=
      (shelf_mem_readNames hnow₀ saved stamp).mpr ⟨rfl, hwindow⟩
    refine ⟨hread, fun v hv hkeep => ?_⟩
    refine ⟨_, (getMsgs_result cfg hn (by exact hv) _ ss se rs re).trans (if_pos hcap), ?_⟩
    refine mem_msgsIn (v := v.atTime now) hnow₀ ?_ hread hrange ss se
    refine (hkeep _ rfl).mpr ?_
    rw [docs_saveMessage hn h hfresh]
    exact List.mem_append_right _ (List.mem_singleton.mpr rfl)

/-- In the first second of 1970 the message comes back. -/
theorem pulled_back_epoch :
    PulledBack .oneShard 1 World.empty (asSaved "m1" 0 1 letter) 0 0 1 1 :=
  (pulled_back_iff Mongo.Sound.empty "m1" letter 0 1 (by decide) (by decide) 0 0 1 1
    (by decide)).mpr (by decide)

/-- A message of November 2023 is filed under a year that no reader looks at. -/
theorem stamped_message_lost :
    ((getMsgs .oneShard 1 "b" 0 0 1 1).exec ((saveMessage .oneShard 1
      (asSaved "m1" 1700000000000 1 letter)).after (World.empty.atTime 1700000000000))).1 = .ok [] ∧
    ¬ PulledBack .oneShard 1 World.empty (asSaved "m1" 1700000000000 1 letter) 0 0 1 1 := by
  refine ⟨by decide, ?_⟩
  intro hback
  have hread := (hback 1700000000000 1700000000000 (le_refl _) (le_refl _) (by decide)).1
  revert hread
  decide

end HybridShardedMsgBox

end Sandcat
