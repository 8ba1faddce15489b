import Mathlib.Algebra.Ring.Int.Defs
import Sandcat.Scripts

/-!
# The readers of the counters

Three calls read the same hashes. `get_seq` takes any failure for zero, `get_send_seq` takes a missing
field for zero, and `get_cur_seq` fails where a field is missing. A `cur_seq` is there as the text of an
`i64` or not at all: `HINCRBY` and `set_seq` write nothing else, and a script that is refused leaves what the
commands before have written.
-/

namespace Sandcat

def incompatibleType : Error := .mk .redisError (some "Response was of incompatible type")

namespace Value

/-- `i64::from_redis_value`, with its error. -/
def readI64 (v : Value) : Except Error Int :=
  match v.toI64 with
  | some n => .ok n
  | none => .error incompatibleType

/-- `Option::<i64>::from_redis_value`. -/
def readOptionI64 : Value → Except Error (Option Int)
  | nil => .ok none
  | v => (readI64 v).map some

end Value

/-- `HGET` as a client sees it. -/
def fieldValue (field : Option String) : Value := field.elim .nil .data

namespace RedisCache

def getSeq (userId : UserId) (s : StoredHashes) : Except Error Int :=
  match (fieldValue (s (seqKey userId)).curSeq).readI64 with
  | .ok seq => .ok seq
  | .error _ => .ok 0

def getCurSeq (userId : UserId) (s : StoredHashes) : Except Error (Int × Int) := do
  let seq1 ← (fieldValue (s (seqKey userId)).curSeq).readI64
  let seq2 ← (fieldValue (s (sendSeqKey userId)).curSeq).readI64
  pure (seq1, seq2)

def getSendSeq (userId : UserId) (s : StoredHashes) : Except Error (Int × Int) := do
  let curSeq ← (fieldValue (s (sendSeqKey userId)).curSeq).readOptionI64
  let maxSeq ← (fieldValue (s (sendSeqKey userId)).maxSeq).readOptionI64
  pure (curSeq.getD 0, maxSeq.getD 0)

/-- A field that is there is read as a number. -/
def Readable (field : Option String) : Prop :=
  ∀ text, field = some text → ∃ n, (Value.data text).readI64 = .ok n

/-- The counters within 64 bits. -/
def Within (s : StoredHashes) : Prop := ∀ key, Readable (s key).curSeq

end RedisCache

namespace MsgHandlers

structure Seq where
  seq : Int
  sendSeq : Int
  deriving DecidableEq

/-- `get_seq` of the API, which asks `get_cur_seq`. -/
def getSeq (userId : UserId) (s : StoredHashes) : Except Error Seq := do
  let seq ← RedisCache.getCurSeq userId s
  pure { seq := seq.1, sendSeq := seq.2 }

end MsgHandlers

open RedisCache StoredHash

/-- The answers of the readers fit together, and a counter that is not there is zero. -/
def SeqGettersAgree (userId : UserId) (s : StoredHashes) : Prop :=
  ∃ seq sendSeq sendMaxSeq, getSeq userId s = .ok seq ∧
    getSendSeq userId s = .ok (sendSeq, sendMaxSeq) ∧ getCurSeq userId s = .ok (seq, sendSeq) ∧
    ((s (seqKey userId)).curSeq = none → seq = 0) ∧
    ((s (sendSeqKey userId)).curSeq = none → sendSeq = 0)

section Readers

variable {lua : Lua} {seqStep : Int} {s : StoredHashes} {userId : UserId} {field : Option String} {n m : Int}

@[simp] theorem fieldValue_none : fieldValue none = .nil := rfl
@[simp] theorem fieldValue_some (text : String) : fieldValue (some text) = .data text := rfl

@[simp] theorem readI64_nil : Value.nil.readI64 = .error incompatibleType := rfl
@[simp] theorem readOptionI64_nil : Value.nil.readOptionI64 = .ok none := rfl
@[simp] theorem readOptionI64_data (text : String) :
    (Value.data text).readOptionI64 = (Value.data text).readI64.map some := rfl

theorem readI64_data {text : String} (h : parseI64 text = some n) : (Value.data text).readI64 = .ok n := by
  simp only [Value.readI64, Value.toI64, h]

theorem readI64_toString (h : FitsI64 n) : (Value.data (toString n)).readI64 = .ok n :=
  readI64_data (parseI64_toString h)

theorem readable_none : Readable none := by
  intro text h
  cases h

theorem readable_toString (h : FitsI64 n) : Readable (some (toString n)) := by
  intro text htext
  cases htext
  exact ⟨n, readI64_toString h⟩

theorem fitsI64_toInt (n : Int64) : FitsI64 n.toInt := ⟨n.le_toInt, n.toInt_lt⟩

theorem within_setSeqRow (h : Within s) (row : UserId × Int64 × Int64) : Within (setSeqRow s row) := by
  intro key
  unfold setSeqRow
  by_cases hseq : key = seqKey row.1
  · subst hseq
    rw [Function.update_self]
    exact readable_toString (fitsI64_toInt _)
  · rw [Function.update_of_ne hseq]
    by_cases hsend : key = sendSeqKey row.1
    · subst hsend
      rw [Function.update_self]
      exact readable_toString (fitsI64_toInt _)
    · rw [Function.update_of_ne hsend]
      exact h key

theorem within_setSeq (h : Within s) (maxSeq : List (UserId × Int64 × Int64)) : Within (setSeq maxSeq s) := by
  induction maxSeq generalizing s with
  | nil => exact h
  | cons row rows ih => exact ih (within_setSeqRow h row)

/-- The counter of a hash is a text that can be read. -/
abbrev CurReadable (h : StoredHash) : Prop := Readable h.curSeq

theorem keeps_hincrby : Script.Keeps CurReadable hincrby := by
  intro h hread
  simp only [Script.after, hincrby, Script.get_bind]
  cases h.curSeq.elim (some 0) parseI64 with
  | none => exact hread
  | some n =>
    by_cases hfits : FitsI64 (n + 1)
    · simp only [if_pos hfits]
      exact readable_toString hfits
    · simp only [if_neg hfits]
      exact hread

theorem keeps_hget : Script.Keeps CurReadable hget := fun _ hread => hread

theorem keeps_hset (n : Int) : Script.Keeps CurReadable (hset lua n) := fun _ hread => hread

theorem keeps_operand {σ : Type} {P : σ → Prop} (v : LuaValue) :
    Script.Keeps P (v.operand lua : Script σ Int) := by
  unfold LuaValue.operand
  split
  · exact .pure _
  · exact .throw _

/-- Of the commands of a script `HINCRBY` alone writes the counter. -/
theorem keeps_singleScriptText (argv : String) : Script.Keeps CurReadable (singleScriptText lua argv) := by
  unfold singleScriptText
  refine .bind keeps_hincrby fun curSeq => .bind keeps_hget fun maxSeq => ?_
  dsimp only
  split
  on_goal 1 => refine .bind (keeps_operand _) fun maxSeq => .bind (keeps_hset _) fun _ => ?_
  all_goals
    refine .bind (.pure _) fun maxSeq => .bind (keeps_operand _) fun ceiling => ?_
    split
    · exact .bind (keeps_operand _) fun _ => .bind (keeps_operand _) fun _ =>
        .bind (keeps_hset _) fun _ => .pure _
    · exact .pure _

theorem keeps_groupScriptTextBody : Script.Keeps CurReadable (groupScriptTextBody lua seqStep) := by
  unfold groupScriptTextBody
  refine .bind keeps_hincrby fun curSeq => .bind keeps_hget fun maxSeq => ?_
  dsimp only
  split
  on_goal 1 => refine .bind (keeps_hset _) fun _ => .bind (.pure _) ?_
  on_goal 2 => refine .bind (keeps_operand _) ?_
  all_goals
    intro ceiling
    split
    · exact .bind (keeps_hset _) fun _ => .pure _
    · exact .pure _

/-- What keeps the counter of a hash keeps the counters. -/
theorem keeps_onKey {α : Type} {script : Script StoredHash α} (hscript : Script.Keeps CurReadable script)
    (key : String) : Script.Keeps Within (script.onKey key) := by
  intro s hs k
  have hkept := hscript (s key) (hs key)
  unfold Script.after at hkept ⊢
  unfold Script.onKey
  cases hrun : script (s key) with
  | ok a h =>
    rw [hrun] at hkept
    by_cases hk : k = key
    · subst hk
      simpa using hkept
    · simpa [hk] using hs k
  | error e h =>
    rw [hrun] at hkept
    by_cases hk : k = key
    · subst hk
      simpa using hkept
    · simpa [hk] using hs k

theorem keeps_groupScriptTextLoop (members : List UserId) :
    Script.Keeps Within (groupScriptTextLoop lua seqStep members) := by
  induction members with
  | nil => exact .pure _
  | cons member members ih =>
    exact .bind (keeps_onKey keeps_groupScriptTextBody _) fun _ => .bind ih fun _ => .pure _

theorem keeps_evalSingle (key : String) : Script.Keeps Within (evalSingle lua seqStep key) := by
  refine .bind (keeps_onKey (keeps_singleScriptText _) key) fun result => ?_
  split
  · exact .pure _
  · exact .throw _

theorem keeps_incrGroupSeq (members : List UserId) :
    Script.Keeps Within (incrGroupSeq lua seqStep members) := by
  refine .bind (.bind (keeps_operand _) fun _ => keeps_groupScriptTextLoop members) fun response => ?_
  split
  · exact .pure _
  · exact .throw _

theorem RedisCache.Reachable.within (h : Reachable lua s) : Within s := by
  induction h with
  | empty => exact fun _ => readable_none
  | increaseSeq seqStep userId _ ih => exact keeps_evalSingle _ _ ih
  | incrSendSeq seqStep userId _ ih => exact keeps_evalSingle _ _ ih
  | incrGroupSeq seqStep members _ ih => exact keeps_incrGroupSeq members _ ih
  | setSeq maxSeq _ ih => exact within_setSeq ih maxSeq

/-- `get_cur_seq` answers if and only if both counters are there. -/
theorem getCurSeq_ok_iff (h : Within s) : (∃ seqs, getCurSeq userId s = .ok seqs) ↔
    (s (seqKey userId)).curSeq.isSome ∧ (s (sendSeqKey userId)).curSeq.isSome := by
  have hseq := h (seqKey userId)
  have hsend := h (sendSeqKey userId)
  unfold getCurSeq
  cases hcur : (s (seqKey userId)).curSeq with
  | none => simp [bind, Except.bind]
  | some text =>
    obtain ⟨n, hn⟩ := hseq text hcur
    cases hcur' : (s (sendSeqKey userId)).curSeq with
    | none => simp [hn, bind, Except.bind]
    | some text' =>
      obtain ⟨n', hn'⟩ := hsend text' hcur'
      simp [hn, hn', bind, Except.bind, pure, Except.pure]

/-- A user without one of the two counters gets an error from the API. -/
theorem msgHandlers_getSeq_ok_iff (h : Within s) : (∃ seq, MsgHandlers.getSeq userId s = .ok seq) ↔
    (s (seqKey userId)).curSeq.isSome ∧ (s (sendSeqKey userId)).curSeq.isSome := by
  rw [← getCurSeq_ok_iff h]
  unfold MsgHandlers.getSeq
  cases getCurSeq userId s with
  | error e => simp [bind, Except.bind]
  | ok seqs => simp [bind, Except.bind, pure, Except.pure]

/-- A counter that is there is read in the same way by all three calls. -/
theorem fieldValue_read (h : Readable field) (hsome : field.isSome) : ∃ n,
    (fieldValue field).readI64 = .ok n ∧ (fieldValue field).readOptionI64 = .ok (some n) := by
  obtain ⟨text, rfl⟩ := Option.isSome_iff_exists.mp hsome
  obtain ⟨n, hn⟩ := h text rfl
  refine ⟨n, hn, ?_⟩
  rw [fieldValue_some, readOptionI64_data, hn]
  rfl

/-- A field that the pipeline of `get_send_seq` reads is a number, or it is missing. -/
theorem readable_of_readOptionI64 {value : Option Int}
    (h : (fieldValue field).readOptionI64 = .ok value) : Readable field := by
  intro text htext
  subst htext
  rw [fieldValue_some, readOptionI64_data] at h
  cases hread : (Value.data text).readI64 with
  | error e =>
    rw [hread] at h
    cases h
  | ok n => exact ⟨n, rfl⟩

/-- `get_send_seq` fails on nothing but a field that is not a number. -/
theorem getSendSeq_ok (h : getSendSeq userId s = .ok (n, m)) :
    Readable (s (sendSeqKey userId)).maxSeq := by
  unfold getSendSeq at h
  cases hcur : (fieldValue (s (sendSeqKey userId)).curSeq).readOptionI64 with
  | error e =>
    rw [hcur] at h
    cases h
  | ok curSeq =>
    cases hmax : (fieldValue (s (sendSeqKey userId)).maxSeq).readOptionI64 with
    | error e =>
      rw [hcur, hmax] at h
      cases h
    | ok maxSeq => exact readable_of_readOptionI64 hmax

end Readers

/-- The readers agree on a user if and only if both counters of the user are there and what is
reserved for sending is missing or the text of a 64-bit integer. -/
theorem seq_getters_agree_iff {lua : Lua} {s : StoredHashes} (h : Reachable lua s) (userId : UserId) :
    SeqGettersAgree userId s ↔
      (s (seqKey userId)).curSeq.isSome ∧ (s (sendSeqKey userId)).curSeq.isSome ∧
        Readable (s (sendSeqKey userId)).maxSeq := by
  have hwithin := h.within
  constructor
  · rintro ⟨seq, sendSeq, sendMaxSeq, -, hsend, hcur, -, -⟩
    obtain ⟨hseq, hsendSeq⟩ := (getCurSeq_ok_iff hwithin).mp ⟨_, hcur⟩
    exact ⟨hseq, hsendSeq, getSendSeq_ok hsend⟩
  · rintro ⟨hseq, hsendSeq, hmax⟩
    obtain ⟨n, hn, -⟩ := fieldValue_read (hwithin (seqKey userId)) hseq
    obtain ⟨m, hm, hm'⟩ := fieldValue_read (hwithin (sendSeqKey userId)) hsendSeq
    have hget : getSeq userId s = .ok n := by simp [getSeq, hn]
    have hcur : getCurSeq userId s = .ok (n, m) := by
      simp [getCurSeq, hn, hm, bind, Except.bind, pure, Except.pure]
    have hsend : ∃ k, getSendSeq userId s = .ok (m, k) := by
      cases hfield : (s (sendSeqKey userId)).maxSeq with
      | none =>
        exact ⟨0, by simp [getSendSeq, hm', hfield, bind, Except.bind, pure, Except.pure]⟩
      | some text =>
        obtain ⟨k, -, hk⟩ := fieldValue_read hmax (by rw [hfield]; rfl)
        exact ⟨k, by simp [getSendSeq, hm', hk, bind, Except.bind, pure, Except.pure]⟩
    obtain ⟨k, hk⟩ := hsend
    exact ⟨n, m, k, hget, hk, hcur, fun hnone => absurd hnone (Option.isSome_iff_ne_none.mp hseq),
      fun hnone => absurd hnone (Option.isSome_iff_ne_none.mp hsendSeq)⟩

theorem seq_getters_agree_after_load : SeqGettersAgree "u" (setSeq [("u", 7, 9)] fun _ => {}) := by
  have hreachable : Reachable plainLua (setSeq [("u", 7, 9)] fun _ => {}) := .setSeq _ .empty
  refine (seq_getters_agree_iff hreachable "u").mpr ⟨by decide, by decide, ?_⟩
  have hmax : (setSeqRow (fun _ => {}) ("u", 7, 9) (sendSeqKey "u")).maxSeq = some (toString 7) := by
    decide
  have hfits : FitsI64 7 := by decide
  exact hmax ▸ readable_toString hfits

/-- A user who is new, or who has only received, has no counter for sending. -/
theorem seq_getters_not_agree : ¬∀ (lua : Lua) (s : StoredHashes), Reachable lua s →
    ∀ userId, SeqGettersAgree userId s := by
  intro h
  obtain ⟨seq, sendSeq, sendMaxSeq, -, -, hcur, -, -⟩ := h plainLua _ .empty "u"
  cases hcur

end Sandcat
