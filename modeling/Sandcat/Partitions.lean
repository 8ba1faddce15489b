import Sandcat.IsoWeeks

/-!
# The partitions of the messages

`maintain_message_partitions` creates one partition for each ISO week from the current one on, and
drops those whose names come before the name of the last week to keep. The session is in UTC; a
timestamp counts microseconds from 1970-01-01, and `send_time` milliseconds. No other table has a
name that begins with `messages_`.
-/

namespace Sandcat

open IsoWeek

/-- A partition of `messages`, with its bounds of `send_time`. -/
structure Partition where
  tablename : String
  lo : Int
  hi : Int
  deriving DecidableEq, Repr

namespace Partition

def Covers (p : Partition) (instant : Int) : Prop := p.lo ≤ instant ∧ instant < p.hi

/-- Ranges that do not overlap. -/
def Apart (p q : Partition) : Prop := p.hi ≤ q.lo ∨ q.hi ≤ p.lo

instance (p q : Partition) : Decidable (p.Apart q) := inferInstanceAs (Decidable (_ ∨ _))

end Partition

/-- `messages`. The database keeps the names of the partitions distinct and their ranges apart. -/
structure MessagesTable where
  partitions : List Partition
  names : (partitions.map Partition.tablename).Nodup
  apart : partitions.Pairwise Partition.Apart

namespace MessagesTable

def empty : MessagesTable := ⟨[], List.nodup_nil, List.Pairwise.nil⟩

/-- `CREATE TABLE IF NOT EXISTS ... PARTITION OF messages`. -/
def create (p : Partition) (t : MessagesTable) : Except String MessagesTable :=
  if hname : p.tablename ∈ t.partitions.map Partition.tablename then .ok t
  else if hapart : ∀ q ∈ t.partitions, q.Apart p then
    .ok ⟨t.partitions ++ [p], by
      rw [List.map_append, List.nodup_append]
      refine ⟨t.names, List.nodup_singleton _, ?_⟩
      rintro name hmem _ hlast rfl
      exact hname (List.mem_singleton.mp hlast ▸ hmem), by
      rw [List.pairwise_append]
      exact ⟨t.apart, List.pairwise_singleton _ _, fun q hq r hr => List.mem_singleton.mp hr ▸ hapart q hq⟩⟩
  else .error (p.tablename ++ " would overlap partition")

/-- `DROP TABLE IF EXISTS`. -/
def drop (t : MessagesTable) (name : String) : MessagesTable where
  partitions := t.partitions.filter (·.tablename ≠ name)
  names := t.names.sublist (List.filter_sublist.map _)
  apart := t.apart.sublist List.filter_sublist

end MessagesTable

/-- `DATE_TRUNC('week', NOW())`. -/
def dateTruncWeek (now : Int) : Int := monday (weekOf (now / 86400000000)) * 86400000000

/-- `INTERVAL '1 week'`. -/
def oneWeek : Int := 7 * 86400000000

/-- `(EXTRACT(EPOCH FROM ...) * 1000)::BIGINT`, of a whole number of milliseconds. -/
def epochMs (timestamp : Int) : Int := timestamp / 1000

/-- `'messages_' || TO_CHAR(..., 'IYYY_IW')`. -/
def partitionName (timestamp : Int) : String := "messages_" ++ toChar (weekOf (timestamp / 86400000000))

/-- `tablename LIKE 'messages_%'`, where the underscore stands for any character. -/
def likeMessages (tablename : String) : Bool :=
  "messages".toList.isPrefixOf tablename.toList && decide (9 ≤ tablename.toList.length)

namespace MessagesTable

/-- The loop body of the creation; an error is a warning. -/
def createWeek (currentWeekStart : Int) (t : MessagesTable) (i : Nat) : MessagesTable :=
  let weekStartMs := epochMs (currentWeekStart + i * oneWeek)
  let weekEndMs := epochMs (currentWeekStart + (i + 1) * oneWeek)
  match t.create ⟨partitionName (currentWeekStart + i * oneWeek), weekStartMs, weekEndMs⟩ with
  | .ok t => t
  | .error _ => t

def createWeeks (futureWeeks : Nat) (currentWeekStart : Int) (t : MessagesTable) : MessagesTable :=
  (List.range (futureWeeks + 1)).foldl (createWeek currentWeekStart) t

/-- The names selected for dropping, compared character by character. -/
def oldPartitions (threshold : String) (t : MessagesTable) : List String :=
  (t.partitions.map Partition.tablename).filter fun tablename =>
    likeMessages tablename && decide (tablename.toList < threshold.toList)

def dropOld (retentionWeeks : Nat) (currentWeekStart : Int) (t : MessagesTable) : MessagesTable :=
  (t.oldPartitions (partitionName (currentWeekStart - retentionWeeks * oneWeek))).foldl drop t

/-- `maintain_message_partitions`. -/
def maintain (futureWeeks retentionWeeks : Nat) (now : Int) (t : MessagesTable) : MessagesTable :=
  let currentWeekStart := dateTruncWeek now
  (t.createWeeks futureWeeks currentWeekStart).dropOld retentionWeeks currentWeekStart

end MessagesTable

/-- A call of `maintain_message_partitions`. -/
structure PartitionCall where
  futureWeeks : Nat
  retentionWeeks : Nat
  now : Int

namespace PartitionCall

def week (c : PartitionCall) : Int := weekOf (c.now / 86400000000)

/-- The years of the weeks that a call names have four digits. -/
def InRange (c : PartitionCall) : Prop :=
  FourDigits (c.week - c.retentionWeeks) ∧ FourDigits (c.week + c.futureWeeks)

instance (c : PartitionCall) : Decidable c.InRange := inferInstanceAs (Decidable (_ ∧ _))

theorem InRange.fourDigits {c : PartitionCall} (h : c.InRange) {i : Nat} (hi : i ≤ c.futureWeeks) :
    FourDigits (c.week + i) := h.1.of_le_of_le h.2 (by omega) (by omega)

/-- The table when the partitions of a call are created, and at its end. -/
def created (c : PartitionCall) (t : MessagesTable) : MessagesTable :=
  t.createWeeks c.futureWeeks (dateTruncWeek c.now)

def maintain (c : PartitionCall) (t : MessagesTable) : MessagesTable :=
  t.maintain c.futureWeeks c.retentionWeeks c.now

end PartitionCall

namespace MessagesTable

/-- The table after calls one after another. -/
def run (calls : List PartitionCall) : MessagesTable := calls.foldl (fun t c => c.maintain t) empty

/-- The start of a week, as a bound of `send_time`. -/
def weekStart (week : Int) : Int := monday week * 86400000

/-- The partition of a week. -/
def weekPartition (week : Int) : Partition :=
  ⟨"messages_" ++ toChar week, weekStart week, weekStart (week + 1)⟩

variable {t : MessagesTable} {p : Partition} {week : Int}

theorem weekOf_monday (week : Int) : weekOf (monday week) = week := by
  rw [weekOf, monday]
  omega

/-- Weeks counted from the current one, as timestamps. -/
theorem dateTruncWeek_add (now i : Int) : dateTruncWeek now + i * oneWeek =
    monday (weekOf (now / 86400000000) + i) * 86400000000 := by
  simp only [dateTruncWeek, oneWeek, monday]
  omega

theorem partitionName_monday (week : Int) :
    partitionName (monday week * 86400000000) = "messages_" ++ toChar week := by
  rw [partitionName, Int.mul_ediv_cancel _ (by decide), weekOf_monday]

theorem epochMs_monday (week : Int) : epochMs (monday week * 86400000000) = weekStart week := by
  rw [epochMs, weekStart]
  omega

/-- The partition that the loop creates is the one of its week. -/
theorem createWeek_eq (now : Int) (t : MessagesTable) (i : Nat) :
    t.createWeek (dateTruncWeek now) i =
      match t.create (weekPartition (weekOf (now / 86400000000) + i)) with
      | .ok t => t
      | .error _ => t := by
  rw [createWeek, dateTruncWeek_add, dateTruncWeek_add, partitionName_monday, epochMs_monday,
    epochMs_monday, ← Int.add_assoc]
  rfl

theorem weekStart_le {a b : Int} : weekStart a ≤ weekStart b ↔ a ≤ b := by
  simp only [weekStart, monday]
  omega

/-- An instant is in the bounds of one week. -/
theorem covers_weekPartition {instant : Int} :
    (weekPartition week).Covers instant ↔ weekOf (instant / 86400000) = week := by
  simp only [Partition.Covers, weekPartition, weekStart, monday, weekOf]
  omega

theorem weekOf_lo (week : Int) : weekOf ((weekPartition week).lo / 86400000) = week := by
  rw [weekPartition, weekStart, Int.mul_ediv_cancel _ (by decide), weekOf_monday]

/-- Different weeks are apart. -/
theorem apart_weekPartition {a b : Int} (h : a ≠ b) : (weekPartition a).Apart (weekPartition b) := by
  simp only [Partition.Apart, weekPartition, weekStart_le]
  omega

theorem tablename_inj {a b : Int} (ha : FourDigits a) (hb : FourDigits b)
    (h : (weekPartition a).tablename = (weekPartition b).tablename) : a = b := by
  apply toChar_inj ha hb
  simpa [weekPartition] using h

/-- All partitions are those of weeks. -/
def Weekly (t : MessagesTable) : Prop :=
  ∀ p ∈ t.partitions, ∃ week, FourDigits week ∧ p = weekPartition week

/-- The partition of a week is there after its creation, and nothing else is new. -/
theorem mem_create (h : t.Weekly) (hweek : FourDigits week) {t' : MessagesTable}
    (ht' : t' = match t.create (weekPartition week) with
      | .ok t => t
      | .error _ => t) :
    p ∈ t'.partitions ↔ p ∈ t.partitions ∨ p = weekPartition week := by
  subst ht'
  by_cases hname : (weekPartition week).tablename ∈ t.partitions.map Partition.tablename
  · obtain ⟨q, hq, hqname⟩ := List.mem_map.mp hname
    obtain ⟨a, ha, rfl⟩ := h q hq
    obtain rfl := tablename_inj ha hweek hqname
    rw [create, dif_pos hname]
    constructor
    · exact .inl
    · rintro (hp | rfl)
      · exact hp
      · exact hq
  · have hapart : ∀ q ∈ t.partitions, q.Apart (weekPartition week) := by
      intro q hq
      obtain ⟨a, ha, rfl⟩ := h q hq
      apply apart_weekPartition
      rintro rfl
      exact hname (List.mem_map_of_mem hq)
    rw [create, dif_neg hname, dif_pos hapart]
    simp

theorem mem_foldl_createWeek {now : Int} (is : List Nat) (h : t.Weekly)
    (hweeks : ∀ i ∈ is, FourDigits (weekOf (now / 86400000000) + i)) :
    p ∈ (is.foldl (createWeek (dateTruncWeek now)) t).partitions ↔
      p ∈ t.partitions ∨ ∃ i ∈ is, p = weekPartition (weekOf (now / 86400000000) + i) := by
  induction is generalizing t with
  | nil => simp
  | cons i is ih =>
    rw [List.forall_mem_cons] at hweeks
    have hmem := fun q => mem_create (p := q) h hweeks.1 (createWeek_eq now t i)
    have hweekly : (t.createWeek (dateTruncWeek now) i).Weekly := by
      intro q hq
      obtain hq | rfl := (hmem q).mp hq
      · exact h q hq
      · exact ⟨_, hweeks.1, rfl⟩
    rw [List.foldl_cons, ih hweekly hweeks.2, hmem, or_assoc]
    simp

/-- The names of weeks are found by the pattern. -/
theorem likeMessages_week (week : Int) : likeMessages (weekPartition week).tablename = true := by
  have hstarts : "messages_".toList = "messages".toList ++ ['_'] := by decide
  have hlength : "messages_".toList.length = 9 := by decide
  rw [likeMessages, weekPartition, Bool.and_eq_true, List.isPrefixOf_iff_prefix, decide_eq_true_eq,
    String.toList_append, List.length_append, hlength]
  refine ⟨?_, Nat.le_add_right _ _⟩
  rw [hstarts, List.append_assoc]
  exact List.prefix_append _ _

/-- The names of weeks are in the order of the weeks. -/
theorem tablename_lt_iff {a b : Int} (ha : FourDigits a) (hb : FourDigits b) :
    (weekPartition a).tablename.toList < (weekPartition b).tablename.toList ↔ a < b := by
  simp only [weekPartition]
  rw [String.toList_append, String.toList_append, Decimal.append_lt_append_iff rfl,
    toChar_lt_iff ha hb]
  simp

theorem mem_oldPartitions {first : Int} (hp : p ∈ t.partitions) (h : p = weekPartition week)
    (hweek : FourDigits week) (hfirst : FourDigits first) :
    p.tablename ∈ t.oldPartitions (weekPartition first).tablename ↔ week < first := by
  subst h
  rw [oldPartitions, List.mem_filter, Bool.and_eq_true, decide_eq_true_eq,
    tablename_lt_iff hweek hfirst]
  constructor
  · exact fun h => h.2.2
  · exact fun h => ⟨List.mem_map_of_mem hp, likeMessages_week week, h⟩

theorem mem_foldl_drop (names : List String) :
    p ∈ (names.foldl drop t).partitions ↔ p ∈ t.partitions ∧ p.tablename ∉ names := by
  induction names generalizing t with
  | nil => simp
  | cons name names ih =>
    rw [List.foldl_cons, ih, drop, List.mem_filter, decide_eq_true_eq, List.mem_cons, not_or,
      and_assoc]

section Calls

variable {c : PartitionCall}

/-- What is there when a call has created its partitions. -/
theorem mem_created (h : t.Weekly) (hc : c.InRange) :
    p ∈ (c.created t).partitions ↔
      p ∈ t.partitions ∨ ∃ i ≤ c.futureWeeks, p = weekPartition (c.week + i) := by
  have hmem : p ∈ (c.created t).partitions ↔ p ∈ t.partitions ∨
      ∃ i ∈ List.range (c.futureWeeks + 1), p = weekPartition (c.week + i) :=
    mem_foldl_createWeek _ h fun i hi => hc.fourDigits (Nat.lt_succ_iff.mp (List.mem_range.mp hi))
  simpa only [List.mem_range, Nat.lt_succ_iff] using hmem

theorem Weekly.created (h : t.Weekly) (hc : c.InRange) : (c.created t).Weekly := by
  intro p hp
  obtain hp | ⟨i, hi, rfl⟩ := (mem_created h hc).mp hp
  · exact h p hp
  · exact ⟨_, hc.fourDigits hi, rfl⟩

/-- A call drops the partitions of the weeks before the first one to keep. -/
theorem mem_maintain (h : t.Weekly) (hc : c.InRange) :
    p ∈ (c.maintain t).partitions ↔ p ∈ (c.created t).partitions ∧
      ¬p.hi ≤ weekStart (c.week - c.retentionWeeks) := by
  have hname : partitionName (dateTruncWeek c.now - c.retentionWeeks * oneWeek) =
      (weekPartition (c.week - c.retentionWeeks)).tablename := by
    have hadd := dateTruncWeek_add c.now (-c.retentionWeeks)
    rw [Int.neg_mul, ← Int.sub_eq_add_neg, ← Int.sub_eq_add_neg] at hadd
    rw [hadd, partitionName_monday]
    rfl
  have hmem : p ∈ (c.maintain t).partitions ↔ p ∈ (c.created t).partitions ∧ p.tablename ∉
      (c.created t).oldPartitions (weekPartition (c.week - c.retentionWeeks)).tablename := by
    rw [← hname]
    exact mem_foldl_drop _
  rw [hmem, and_congr_right_iff]
  intro hp
  obtain ⟨week, hweek, hpart⟩ := h.created hc p hp
  rw [mem_oldPartitions hp hpart hweek hc.1, hpart, weekPartition, weekStart_le]
  omega

theorem Weekly.maintain (h : t.Weekly) (hc : c.InRange) : (c.maintain t).Weekly :=
  fun p hp => h.created hc p ((mem_maintain h hc).mp hp).1

/-- From the current week on, an instant is in the partition of its week and in no other. -/
theorem covered_once (h : t.Weekly) (hc : c.InRange) {instant : Int}
    (hlo : weekStart c.week ≤ instant)
    (hhi : instant < weekStart (c.week + c.futureWeeks + 1)) :
    ∃! p, p ∈ (c.maintain t).partitions ∧ p.Covers instant := by
  -- the week of the instant is one of those that the call makes sure of
  obtain ⟨i, hi, hweek⟩ : ∃ i ≤ c.futureWeeks, weekOf (instant / 86400000) = c.week + i := by
    simp only [weekStart, monday] at hlo hhi
    rw [weekOf]
    exact ⟨((instant / 86400000 + 3) / 7 - c.week).toNat, by omega, by omega⟩
  have hcovers := covers_weekPartition.mpr hweek
  refine ⟨weekPartition (c.week + i), ⟨(mem_maintain h hc).mpr ⟨?_, ?_⟩, hcovers⟩, ?_⟩
  · exact (mem_created h hc).mpr (.inr ⟨i, hi, rfl⟩)
  · rw [weekPartition, weekStart_le]
    omega
  · rintro p ⟨hp, hpcovers⟩
    obtain ⟨k, -, rfl⟩ := h.maintain hc p hp
    rw [← covers_weekPartition.mp hpcovers, hweek]

theorem weekly_run {calls : List PartitionCall} (h : ∀ c ∈ calls, c.InRange) : (run calls).Weekly := by
  induction calls using List.reverseRecOn with
  | nil => exact fun p hp => absurd hp List.not_mem_nil
  | append_singleton calls c ih =>
    rw [run, List.foldl_append]
    exact (ih fun c hc => h c (by simp [hc])).maintain (h c (by simp))

/-- The call that comes next creates a partition. -/
def Creates (calls : List PartitionCall) (c : PartitionCall) (p : Partition) : Prop :=
  p ∈ (c.created (run calls)).partitions ∧ p ∉ (run calls).partitions

theorem Creates.exists_week {calls : List PartitionCall} (h : ∀ c' ∈ calls, c'.InRange) (hc : c.InRange)
    (hp : Creates calls c p) : ∃ week, FourDigits week ∧ p = weekPartition week :=
  (weekly_run h).created hc p hp.1

end Calls

end MessagesTable

open MessagesTable

/-- After any calls, and one more: the weeks from the current one on are tiled, a created partition is
fixed by its week, and those dropped are those whose week ends by the start of the first week to
keep. -/
theorem partitions_tile (calls : List PartitionCall) (c : PartitionCall)
    (hcalls : ∀ c' ∈ calls, c'.InRange) (hc : c.InRange) :
    (∀ instant, weekStart c.week ≤ instant → instant < weekStart (c.week + c.futureWeeks + 1) →
      ∃! p, p ∈ (run (calls ++ [c])).partitions ∧ p.Covers instant) ∧
    (∀ calls' c' p p', (∀ d ∈ calls', PartitionCall.InRange d) → PartitionCall.InRange c' →
      Creates calls c p → Creates calls' c' p' →
      (weekOf (p.lo / 86400000) = weekOf (p'.lo / 86400000) → p = p') ∧
      (weekOf (p.lo / 86400000) ≠ weekOf (p'.lo / 86400000) →
        p.tablename ≠ p'.tablename ∧ p.Apart p')) ∧
    ∀ p ∈ (c.created (run calls)).partitions,
      p ∉ (run (calls ++ [c])).partitions ↔ p.hi ≤ weekStart (c.week - c.retentionWeeks) := by
  have hweekly := weekly_run hcalls
  have hrun : run (calls ++ [c]) = c.maintain (run calls) := by rw [run, List.foldl_append]; rfl
  rw [hrun]
  refine ⟨?_, ?_, ?_⟩
  · exact fun instant hlo hhi => covered_once hweekly hc hlo hhi
  · intro calls' c' p p' hcalls' hc' hp hp'
    obtain ⟨a, ha, rfl⟩ := hp.exists_week hcalls hc
    obtain ⟨b, hb, rfl⟩ := hp'.exists_week hcalls' hc'
    rw [weekOf_lo, weekOf_lo]
    refine ⟨congrArg weekPartition, ?_⟩
    intro hne
    exact ⟨fun h => hne (tablename_inj ha hb h), apart_weekPartition hne⟩
  · intro p hp
    rw [mem_maintain hweekly hc]
    simp [hp]

/-- The first call of the database, and one at the turn of the year that keeps a week. -/
theorem partitions_tile_new_year :
    ∃! p, p ∈ (run ([⟨52, 52, 1765000000000000⟩] ++ [⟨4, 1, 1767000000000000⟩])).partitions ∧
      p.Covers 1767225600000 :=
  (partitions_tile [⟨52, 52, 1765000000000000⟩] ⟨4, 1, 1767000000000000⟩ (by decide) (by decide)).1
    1767225600000 (by decide) (by decide)

end Sandcat
