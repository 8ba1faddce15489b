import Sandcat.Counters
import Sandcat.Lib.Binary64
import Sandcat.Lib.Decimal

/-!
# The scripts on the texts that Redis stores

A field of a hash is a text. `HGET` hands a script the text, or `false` for a field that is
missing, and a comparison or a sum reads a text as a number. What a script returns is converted
for the client, which reads it once more: the single script answers with a text where the group
script answers with a number, and with nil where the group script answers with zero. The numbers
of a script are doubles, and those of `HINCRBY` and of the client have 64 bits. Within `2 ^ 53` all
of them are exact.
-/

namespace Sandcat

open Binary64

/-- The range of `i64`. -/
def FitsI64 (n : Int) : Prop := -2 ^ 63 ≤ n ∧ n < 2 ^ 63

instance (n : Int) : Decidable (FitsI64 n) := inferInstanceAs (Decidable (_ ∧ _))

/-- `str::parse::<i64>`, and how `HINCRBY` reads a field. -/
def parseI64 (text : String) : Option Int := (Decimal.parse text).filter (FitsI64 ·)

/-- In what servers differ: how they write a number of more than 17 digits in a hash, what `tonumber` makes
of a text that spells no integer, and the integer that a number beyond 64 bits becomes in a reply. -/
structure Lua where
  far : Int → String
  read : String → Option Int
  cast : Int → Int

/-- A value of a script. A number is an integer that is a double. -/
inductive LuaValue where
  | number (n : Int)
  | string (s : String)
  | boolean (b : Bool)
  deriving DecidableEq

/-- A script ends with the first command that is refused; what it has written by then stays. -/
abbrev Script (σ : Type) := EStateM Error σ

/-- The state in which a script ends. -/
def Script.after {σ α : Type} (script : Script σ α) (s : σ) : σ :=
  match script s with
  | .ok _ t => t
  | .error _ t => t

namespace LuaValue

/-- `tonumber`, without `nil`. -/
def tonumber (lua : Lua) : LuaValue → Option Int
  | number n => some n
  | string s =>
    match Decimal.parse s with
    | some n => some (nearest n)
    | none => lua.read s
  | boolean _ => none

/-- A value as an operand of a comparison, of a sum or of `HSET`. -/
def operand {σ : Type} (lua : Lua) (v : LuaValue) : Script σ Int :=
  match v.tonumber lua with
  | some n => pure n
  | none => throw (.mk .redisError (some "attempt to compare number with nil"))

/-- The conversion of a value that a script returns. -/
def reply (lua : Lua) : LuaValue → Value
  | number n => .int (if FitsI64 n then n else lua.cast n)
  | string s => .data s
  | boolean true => .int 1
  | boolean false => .nil

end LuaValue

namespace Value

/-- `i64::from_redis_value`. -/
def toI64 : Value → Option Int
  | int n => some n
  | data s => parseI64 s
  | _ => none

/-- `bool::from_redis_value`. -/
def toBool : Value → Option Bool
  | nil => some false
  | int n => some (n != 0)
  | _ => none

/-- `<(i64, i64, bool)>::from_redis_value`. -/
def toSeq : Value → Option (Int × Int × Bool)
  | bulk [curSeq, maxSeq, updated] =>
    match curSeq.toI64, maxSeq.toI64, updated.toBool with
    | some curSeq, some maxSeq, some updated => some (curSeq, maxSeq, updated)
    | _, _, _ => none
  | _ => none

end Value

/-- A counter hash as it is stored. -/
structure StoredHash where
  curSeq : Option String := none
  maxSeq : Option String := none
  deriving DecidableEq

namespace StoredHash

/-- `HINCRBY key cur_seq 1`, with the number that the script gets. -/
def hincrby : Script StoredHash Int := do
  let h ← get
  match h.curSeq.elim (some 0) parseI64 with
  | none => throw (.mk .redisError (some "hash value is not an integer"))
  | some n =>
    if FitsI64 (n + 1) then
      set { h with curSeq := some (toString (n + 1)) }
      pure (nearest (n + 1))
    else throw (.mk .redisError (some "increment or decrement would overflow"))

/-- `HGET key max_seq`. -/
def hget : Script StoredHash LuaValue := do
  let h ← get
  pure (h.maxSeq.elim (.boolean false) .string)

/-- `HSET key max_seq n`. -/
def hset (lua : Lua) (n : Int) : Script StoredHash Unit :=
  modify fun h => { h with maxSeq := some (if n.natAbs < 10 ^ 17 then toString n else lua.far n) }

end StoredHash

open StoredHash

abbrev StoredHashes := String → StoredHash

/-- The text of `single_script_load` on the hash `KEYS[1]`. -/
def singleScriptText (lua : Lua) (argv : String) : Script StoredHash (List LuaValue) := do
  let curSeq ← hincrby
  let maxSeq ← hget
  let maxSeq ←
    if maxSeq = .boolean false then do
      let maxSeq ← (LuaValue.string argv).operand lua
      hset lua maxSeq
      pure (LuaValue.number maxSeq)
    else pure maxSeq
  if curSeq > (← maxSeq.operand lua) then
    let maxSeq := nearest ((← maxSeq.operand lua) + (← (LuaValue.string argv).operand lua))
    hset lua maxSeq
    pure [.number curSeq, .number maxSeq, .boolean true]
  else pure [.number curSeq, maxSeq, .boolean false]

/-- One turn of the loop in the text of `group_script_load`. -/
def groupScriptTextBody (lua : Lua) (seqStep : Int) : Script StoredHash (List LuaValue) := do
  let curSeq ← hincrby
  let maxSeq ← hget
  let maxSeq ←
    if maxSeq = .boolean false then do
      hset lua seqStep
      pure seqStep
    else maxSeq.operand lua
  if curSeq > maxSeq then
    let maxSeq := nearest (maxSeq + seqStep)
    hset lua maxSeq
    pure [.number curSeq, .number maxSeq, .number 1]
  else pure [.number curSeq, .number maxSeq, .number 0]

/-- A script on the hash under a key. -/
def Script.onKey {α : Type} (key : String) (script : Script StoredHash α) : Script StoredHashes α :=
  fun hashes =>
    match script (hashes key) with
    | .ok a h => .ok a (Function.update hashes key h)
    | .error e h => .error e (Function.update hashes key h)

/-- The loop over the members in `ARGV[2..]`. -/
def groupScriptTextLoop (lua : Lua) (seqStep : Int) : List UserId → Script StoredHashes (List Value)
  | [] => pure []
  | member :: members => do
    let entry ← (groupScriptTextBody lua seqStep).onKey (seqKey member)
    let result ← groupScriptTextLoop lua seqStep members
    pure (.bulk (entry.map (LuaValue.reply lua)) :: result)

/-- The text of `group_script_load`. -/
def groupScriptText (lua : Lua) (argv : String) (members : List UserId) :
    Script StoredHashes (List Value) := do
  let seqStep ← (LuaValue.string argv).operand lua
  groupScriptTextLoop lua seqStep members

namespace RedisCache

/-- `EVALSHA` of the single script, and what the client reads. -/
def evalSingle (lua : Lua) (seqStep : Int) (key : String) : Script StoredHashes (Int × Int × Bool) := do
  let result ← (singleScriptText lua (toString seqStep)).onKey key
  match Value.toSeq (.bulk (result.map (LuaValue.reply lua))) with
  | some seq => pure seq
  | none => throw (.mk .redisError (some "Response type not convertible"))

def increaseSeq (lua : Lua) (seqStep : Int) (userId : UserId) : Script StoredHashes (Int × Int × Bool) :=
  evalSingle lua seqStep (seqKey userId)

def incrSendSeq (lua : Lua) (seqStep : Int) (userId : UserId) : Script StoredHashes (Int × Int × Bool) :=
  evalSingle lua seqStep (sendSeqKey userId)

def incrGroupSeq (lua : Lua) (seqStep : Int) (members : List UserId) :
    Script StoredHashes (List GroupMemSeq) := do
  let response ← groupScriptText lua (toString seqStep) members
  match collectSeq members response with
  | some seq => pure seq
  | none => throw .panic

/-- One row of the pipeline of `set_seq`. -/
def setSeqRow (hashes : StoredHashes) (row : UserId × Int64 × Int64) : StoredHashes :=
  let send := toString row.2.1.toInt
  let rec_ := toString row.2.2.toInt
  Function.update (Function.update hashes (sendSeqKey row.1) ⟨some send, some send⟩)
    (seqKey row.1) ⟨some rec_, some rec_⟩

def setSeq (maxSeq : List (UserId × Int64 × Int64)) (hashes : StoredHashes) : StoredHashes :=
  maxSeq.foldl setSeqRow hashes

/-- What the scripts and `set_seq` make of an empty server. -/
inductive Reachable (lua : Lua) : StoredHashes → Prop where
  | empty : Reachable lua fun _ => {}
  | increaseSeq {s : StoredHashes} (seqStep : Int) (userId : UserId) :
      Reachable lua s → Reachable lua ((increaseSeq lua seqStep userId).after s)
  | incrSendSeq {s : StoredHashes} (seqStep : Int) (userId : UserId) :
      Reachable lua s → Reachable lua ((incrSendSeq lua seqStep userId).after s)
  | incrGroupSeq {s : StoredHashes} (seqStep : Int) (members : List UserId) :
      Reachable lua s → Reachable lua ((incrGroupSeq lua seqStep members).after s)
  | setSeq {s : StoredHashes} (maxSeq : List (UserId × Int64 × Int64)) : Reachable lua s →
      Reachable lua (setSeq maxSeq s)

end RedisCache

namespace Script

variable {σ α β : Type} {P : σ → Prop}

theorem get_bind (next : σ → Script σ α) (s : σ) : (get >>= next : Script σ α) s = next s s := rfl

/-- A command that is not refused, and the rest of the script. -/
theorem bind_ok {script : Script σ α} {next : α → Script σ β} {s t : σ} {a : α} (h : script s = .ok a t) :
    (script >>= next) s = next a t := by
  simp only [Bind.bind, EStateM.bind, h]

/-- A script keeps a property of the state, also where it is refused. -/
def Keeps (P : σ → Prop) (script : Script σ α) : Prop := ∀ s, P s → P (script.after s)

theorem Keeps.pure (a : α) : Keeps P (Pure.pure a : Script σ α) := fun _ hs => hs

theorem Keeps.throw (e : Error) : Keeps P (MonadExcept.throw e : Script σ α) := fun _ hs => hs

theorem Keeps.bind {script : Script σ α} {next : α → Script σ β} (hscript : Keeps P script)
    (hnext : ∀ a, Keeps P (next a)) : Keeps P (script >>= next) := by
  intro s hs
  have hfirst := hscript s hs
  unfold Script.after at hfirst ⊢
  simp only [Bind.bind, EStateM.bind]
  cases hrun : script s with
  | ok a t =>
    rw [hrun] at hfirst
    exact hnext a t hfirst
  | error e t =>
    rw [hrun] at hfirst
    exact hfirst

end Script

/-- The texts of a counter hash. -/
def SeqHash.stored (h : SeqHash) : StoredHash := ⟨h.curSeq.map toString, h.maxSeq.map toString⟩

/-- The numbers of a counter hash are within `2 ^ 53`. -/
structure SeqHash.Small (h : SeqHash) : Prop where
  curSeq : ∀ c, h.curSeq = some c → Exact c
  maxSeq : ∀ m, h.maxSeq = some m → Exact m

instance (h : SeqHash) : Decidable h.Small :=
  decidable_of_iff ((∀ c ∈ h.curSeq, Exact c) ∧ ∀ m ∈ h.maxSeq, Exact m)
    ⟨fun ⟨hcur, hmax⟩ => ⟨hcur, hmax⟩, fun ⟨hcur, hmax⟩ => ⟨hcur, hmax⟩⟩

theorem SeqHash.stored_injective : Function.Injective SeqHash.stored := by
  have htext : Function.Injective (toString : Int → String) := by
    intro m n h
    have hparse := congrArg Decimal.parse h
    simpa using hparse
  rintro ⟨c, m⟩ ⟨c', m'⟩ h
  obtain ⟨hc, hm⟩ := StoredHash.mk.inj h
  rw [SeqHash.mk.injEq]
  exact ⟨Option.map_injective htext hc, Option.map_injective htext hm⟩

section Texts

variable {σ : Type} {lua : Lua} {seqStep n : Int} {h : SeqHash}

theorem FitsI64.of_exact (hn : Exact n) : FitsI64 n := by
  rw [exact_iff] at hn
  unfold FitsI64
  omega

@[simp] theorem parseI64_toString (hn : FitsI64 n) : parseI64 (toString n) = some n := by
  simp [parseI64, hn]

@[simp] theorem operand_number (s : σ) : (LuaValue.number n).operand lua s = .ok n s := rfl

@[simp] theorem operand_toString (hn : Exact n) (s : σ) :
    (LuaValue.string (toString n)).operand lua s = .ok n s := by
  simp [LuaValue.operand, LuaValue.tonumber, hn]
  rfl

theorem hset_exact (hn : Exact n) (h : StoredHash) :
    hset lua n h = .ok () { h with maxSeq := some (toString n) } := by
  have hlt : n.natAbs < 10 ^ 17 := Nat.lt_of_le_of_lt hn (by decide)
  simp only [hset, if_pos hlt]
  rfl

theorem reply_exact (hn : Exact n) : (LuaValue.number n).reply lua = .int n := by
  rw [LuaValue.reply, if_pos (FitsI64.of_exact hn)]

theorem SeqHash.Small.cur (hsmall : h.Small) : Exact h.cur := by
  unfold SeqHash.cur
  cases hc : h.curSeq with
  | none => decide
  | some c => exact hsmall.curSeq c hc

theorem hincrby_stored (hsmall : h.Small) (hnext : Exact (h.cur + 1)) : hincrby h.stored =
    .ok (h.cur + 1) { h.stored with curSeq := some (toString (h.cur + 1)) } := by
  have hread : h.stored.curSeq.elim (some 0) parseI64 = some h.cur := by
    have hcur := hsmall.cur
    unfold SeqHash.cur at hcur ⊢
    cases hc : h.curSeq with
    | none => simp [SeqHash.stored, hc]
    | some c =>
      rw [hc] at hcur
      simpa [SeqHash.stored, hc] using parseI64_toString (FitsI64.of_exact hcur)
  unfold hincrby
  rw [Script.get_bind, hread]
  simp only [if_pos (FitsI64.of_exact hnext), nearest_of_exact hnext]
  rfl

theorem hget_apply (h : StoredHash) :
    hget h = .ok (h.maxSeq.elim (.boolean false) .string) h := rfl

theorem toSeq_numbers {c m : Int} (hc : Exact c) (hm : Exact m) (updated : Bool) :
    Value.toSeq (.bulk ([.number c, .number m, .boolean updated].map (LuaValue.reply lua))) =
      some (c, m, updated) := by
  rw [List.map_cons, List.map_cons, reply_exact hc, reply_exact hm]
  cases updated <;> rfl

theorem toSeq_text {c m : Int} (hc : Exact c) (hm : Exact m) :
    Value.toSeq (.bulk ([.number c, .string (toString m), .boolean false].map (LuaValue.reply lua))) =
      some (c, m, false) := by
  have hread : (Value.data (toString m)).toI64 = some m := parseI64_toString (.of_exact hm)
  have htext : (LuaValue.string (toString m)).reply lua = .data (toString m) := rfl
  simp only [List.map_cons, List.map_nil, reply_exact hc, htext, Value.toSeq, hread]
  rfl

/-- The text of the single script does to the texts what the script does to the numbers. -/
theorem singleScriptText_stored (lua : Lua) (hstep : Exact seqStep) (hsmall : h.Small)
    (hnext : (singleScript seqStep h).1.Small) :
    ∃ result, singleScriptText lua (toString seqStep) h.stored =
        .ok result (singleScript seqStep h).1.stored ∧
      Value.toSeq (.bulk (result.map (LuaValue.reply lua))) = some (singleScript seqStep h).2 := by
  have hcur := hnext.curSeq _ (singleScript_curSeq seqStep h)
  unfold singleScriptText
  simp only [bind, EStateM.bind, hincrby_stored hsmall hcur, hget_apply]
  obtain ⟨c, m⟩ := h
  cases m with
  | none =>
    have hfresh : (SeqHash.mk c none).stored.maxSeq.elim (LuaValue.boolean false) .string =
        .boolean false := rfl
    simp only [singleScript] at hnext ⊢
    simp only [hfresh, if_true, EStateM.bind, operand_toString hstep, hset_exact hstep, pure,
      EStateM.pure, operand_number]
    split
    · rename_i hfull
      rw [if_pos hfull] at hnext
      have hmax := hnext.maxSeq _ rfl
      simp only [EStateM.bind, operand_number, operand_toString hstep, nearest_of_exact hmax, hset_exact hmax,
        EStateM.pure]
      exact ⟨_, rfl, toSeq_numbers hcur hmax true⟩
    · exact ⟨_, rfl, toSeq_numbers hcur hstep false⟩
  | some m =>
    have hm := hsmall.maxSeq m rfl
    have hloaded : (SeqHash.mk c (some m)).stored.maxSeq.elim (LuaValue.boolean false) .string =
        .string (toString m) := rfl
    simp only [singleScript] at hnext ⊢
    simp only [hloaded, reduceCtorEq, if_false, EStateM.bind, pure, EStateM.pure, operand_toString hm]
    split
    · rename_i hfull
      rw [if_pos hfull] at hnext
      have hmax := hnext.maxSeq _ rfl
      simp only [EStateM.bind, operand_toString hm, operand_toString hstep, nearest_of_exact hmax,
        hset_exact hmax, EStateM.pure]
      exact ⟨_, rfl, toSeq_numbers hcur hmax true⟩
    · exact ⟨_, rfl, toSeq_text hcur hm⟩

/-- One turn of the loop does to the texts what it does to the numbers. -/
theorem groupScriptTextBody_stored (lua : Lua) (hstep : Exact seqStep) (hsmall : h.Small)
    (hnext : (singleScript seqStep h).1.Small) :
    ∃ entry, groupScriptTextBody lua seqStep h.stored = .ok entry (groupScriptBody seqStep h).1.stored ∧
      entry.map (LuaValue.reply lua) = [.int (groupScriptBody seqStep h).2.1,
        .int (groupScriptBody seqStep h).2.2.1, .int (groupScriptBody seqStep h).2.2.2] := by
  have hcur := hnext.curSeq _ (singleScript_curSeq seqStep h)
  have hentry : ∀ {m u : Int}, Exact m → Exact u →
      [LuaValue.number (h.cur + 1), .number m, .number u].map (LuaValue.reply lua) =
        [.int (h.cur + 1), .int m, .int u] := by
    intro m u hm hu
    simp only [List.map_cons, reply_exact hcur, reply_exact hm, reply_exact hu, List.map_nil]
  have zero : Exact 0 := by decide
  have one : Exact 1 := by decide
  unfold groupScriptTextBody
  simp only [bind, EStateM.bind, hincrby_stored hsmall hcur, hget_apply]
  obtain ⟨c, m⟩ := h
  cases m with
  | none =>
    have hfresh : (SeqHash.mk c none).stored.maxSeq.elim (LuaValue.boolean false) .string =
        .boolean false := rfl
    simp only [singleScript, groupScriptBody] at hnext ⊢
    simp only [hfresh, if_true, EStateM.bind, hset_exact hstep, pure, EStateM.pure]
    split
    · rename_i hfull
      rw [if_pos hfull] at hnext
      have hmax := hnext.maxSeq _ rfl
      simp only [EStateM.bind, nearest_of_exact hmax, hset_exact hmax, EStateM.pure]
      exact ⟨_, rfl, hentry hmax one⟩
    · exact ⟨_, rfl, hentry hstep zero⟩
  | some m =>
    have hm := hsmall.maxSeq m rfl
    have hloaded : (SeqHash.mk c (some m)).stored.maxSeq.elim (LuaValue.boolean false) .string =
        .string (toString m) := rfl
    simp only [singleScript, groupScriptBody] at hnext ⊢
    simp only [hloaded, reduceCtorEq, if_false, EStateM.bind, operand_toString hm]
    split
    · rename_i hfull
      rw [if_pos hfull] at hnext
      have hmax := hnext.maxSeq _ rfl
      simp only [EStateM.bind, nearest_of_exact hmax, hset_exact hmax, pure, EStateM.pure]
      exact ⟨_, rfl, hentry hmax one⟩
    · exact ⟨_, rfl, hentry hm zero⟩

end Texts

section Growth

variable {seqStep : Int} {h h' h'' : SeqHash}

/-- Numbers that grew. -/
structure SeqHash.Grown (h h' : SeqHash) : Prop where
  cur : h.cur ≤ h'.cur
  maxSeq : ∀ m, h.maxSeq = some m → ∃ m', h'.maxSeq = some m' ∧ m ≤ m'

theorem SeqHash.Grown.refl (h : SeqHash) : h.Grown h := ⟨Int.le_refl _, fun m hm => ⟨m, hm, Int.le_refl m⟩⟩

theorem SeqHash.Grown.trans (hfirst : h.Grown h') (hsecond : h'.Grown h'') : h.Grown h'' := by
  refine ⟨Int.le_trans hfirst.cur hsecond.cur, ?_⟩
  intro m hm
  obtain ⟨m', hm', hle⟩ := hfirst.maxSeq m hm
  obtain ⟨m'', hm'', hle'⟩ := hsecond.maxSeq m' hm'
  exact ⟨m'', hm'', Int.le_trans hle hle'⟩

/-- The ceiling after an increment is no lower than the one before, or than a block. -/
theorem singleScript_maxSeq (hstep : 1 ≤ seqStep) (h : SeqHash) :
    ∃ m, (singleScript seqStep h).1.maxSeq = some m ∧ h.maxSeq.getD seqStep ≤ m := by
  obtain ⟨c, m⟩ := h
  cases m with
  | none =>
    simp only [singleScript]
    split
    · exact ⟨_, rfl, by simp only [Option.getD_none]; omega⟩
    · exact ⟨_, rfl, Int.le_refl _⟩
  | some m =>
    simp only [singleScript]
    split
    · exact ⟨_, rfl, by simp only [Option.getD_some]; omega⟩
    · exact ⟨_, rfl, Int.le_refl _⟩

theorem singleScript_grown (hstep : 1 ≤ seqStep) (h : SeqHash) : h.Grown (singleScript seqStep h).1 := by
  constructor
  · rw [singleScript_cur]
    omega
  · intro m hm
    obtain ⟨m', hm', hle⟩ := singleScript_maxSeq hstep h
    rw [hm, Option.getD_some] at hle
    exact ⟨m', hm', hle⟩

theorem bumps_grown (hstep : 1 ≤ seqStep) (hashes : String → SeqHash) (keys : List String) (k : String) :
    (hashes k).Grown (bumps seqStep hashes keys k) := by
  induction keys generalizing hashes with
  | nil => exact .refl _
  | cons key keys ih =>
    rw [bumps_cons]
    refine .trans ?_ (ih _)
    by_cases hk : k = key
    · subst hk
      rw [bump_self]
      exact singleScript_grown hstep _
    · rw [bump_ne _ _ hk]
      exact .refl _

/-- What is small before an increment and later on is small after the increment. -/
theorem SeqHash.Small.of_grown (hstep : 1 ≤ seqStep) (hsmall : h.Small) (hlater : h'.Small)
    (hgrown : (singleScript seqStep h).1.Grown h') : (singleScript seqStep h).1.Small := by
  constructor
  · intro c hc
    rw [singleScript_curSeq] at hc
    cases hc
    have hcur := exact_iff.mp hsmall.cur
    have hcur' := exact_iff.mp hlater.cur
    have hle := hgrown.cur
    rw [singleScript_cur] at hle
    rw [exact_iff]
    omega
  · intro m hm
    obtain ⟨m₁, hm₁, hle₁⟩ := singleScript_maxSeq hstep h
    obtain ⟨m₂, hm₂, hle₂⟩ := hgrown.maxSeq m hm
    rw [hm] at hm₁
    cases hm₁
    have hupper := exact_iff.mp (hlater.maxSeq m₂ hm₂)
    rw [exact_iff]
    cases hbefore : h.maxSeq with
    | none =>
      rw [hbefore, Option.getD_none] at hle₁
      omega
    | some m₀ =>
      have hlower := exact_iff.mp (hsmall.maxSeq m₀ hbefore)
      rw [hbefore, Option.getD_some] at hle₁
      omega

end Growth

/-- The stored counters under some keys are numbers, and they are within `2 ^ 53` before and after the keys'
increments. -/
structure SmallCounters (seqStep : Int) (hashes : String → SeqHash) (keys : List String) (s : StoredHashes) :
    Prop where
  stored : ∀ key ∈ keys, s key = (hashes key).stored
  before : ∀ key ∈ keys, (hashes key).Small
  after : ∀ key ∈ keys, (bumps seqStep hashes keys key).Small

/-- The texts after the increments of some counters. -/
def bumpStored (seqStep : Int) : (String → SeqHash) → List String → StoredHashes → StoredHashes
  | _, [], s => s
  | hashes, key :: keys, s => bumpStored seqStep (bump seqStep hashes key) keys
      (Function.update s key (singleScript seqStep (hashes key)).1.stored)

section Increments

variable {lua : Lua} {seqStep : Int} {hashes : String → SeqHash} {key : String} {keys : List String}
  {s : StoredHashes}

theorem bumpStored_append (keys' : List String) : bumpStored seqStep hashes (keys ++ keys') s =
    bumpStored seqStep (bumps seqStep hashes keys) keys' (bumpStored seqStep hashes keys s) := by
  induction keys generalizing hashes s with
  | nil => rfl
  | cons key keys ih => exact ih

/-- Texts that stood for the numbers stand for the numbers after the increments. -/
theorem bumpStored_apply (keys : List String) (hs : s key = (hashes key).stored) :
    bumpStored seqStep hashes keys s key = (bumps seqStep hashes keys key).stored := by
  induction keys generalizing hashes s with
  | nil => exact hs
  | cons k keys ih =>
    rw [bumpStored, bumps_cons]
    apply ih
    by_cases hk : key = k
    · subst hk
      rw [Function.update_self, bump_self]
    · rw [Function.update_of_ne hk, bump_ne _ _ hk]
      exact hs

theorem SmallCounters.head (hstep : 1 ≤ seqStep) (hs : SmallCounters seqStep hashes (key :: keys) s) :
    (singleScript seqStep (hashes key)).1.Small := by
  have hmem : key ∈ key :: keys := List.mem_cons_self
  have hgrown := bumps_grown hstep (bump seqStep hashes key) keys key
  rw [bump_self] at hgrown
  exact .of_grown hstep (hs.before key hmem) (hs.after key hmem) hgrown

theorem SmallCounters.tail (hstep : 1 ≤ seqStep) (hs : SmallCounters seqStep hashes (key :: keys) s) :
    SmallCounters seqStep (bump seqStep hashes key) keys
      (Function.update s key (singleScript seqStep (hashes key)).1.stored) := by
  constructor
  · intro k hk
    exact bumpStored_apply [key] (hs.stored k (List.mem_cons_of_mem key hk))
  · intro k hk
    by_cases he : k = key
    · subst he
      rw [bump_self]
      exact hs.head hstep
    · rw [bump_ne _ _ he]
      exact hs.before k (List.mem_cons_of_mem key hk)
  · intro k hk
    exact hs.after k (List.mem_cons_of_mem key hk)

theorem SmallCounters.right (hstep : 1 ≤ seqStep) {keys' : List String}
    (hs : SmallCounters seqStep hashes (keys ++ keys') s) :
    SmallCounters seqStep (bumps seqStep hashes keys) keys' (bumpStored seqStep hashes keys s) := by
  induction keys generalizing hashes s with
  | nil => exact hs
  | cons key keys ih => exact ih (hs.tail hstep)

theorem SmallCounters.left (hstep : 1 ≤ seqStep) {keys' : List String}
    (hs : SmallCounters seqStep hashes (keys ++ keys') s) : SmallCounters seqStep hashes keys s := by
  induction keys generalizing hashes s with
  | nil => constructor <;> intro key hkey <;> cases hkey
  | cons key keys ih =>
    have htail := ih (hs.tail hstep)
    constructor
    · intro k hk
      exact hs.stored k (List.mem_append_left keys' hk)
    · intro k hk
      exact hs.before k (List.mem_append_left keys' hk)
    · intro k hk
      rw [bumps_cons]
      by_cases hmem : k ∈ keys
      · exact htail.after k hmem
      · obtain rfl := (List.mem_cons.mp hk).resolve_right hmem
        rw [bumps_not_mem _ _ hmem, bump_self]
        exact hs.head hstep

theorem onKey_ok {α : Type} {script : Script StoredHash α} {h : StoredHash} {a : α}
    (hscript : script (s key) = .ok a h) : script.onKey key s = .ok a (Function.update s key h) := by
  rw [Script.onKey, hscript]

/-- The loop over the members increments their counters one after another. -/
theorem groupScriptTextLoop_stored (hstep : 1 ≤ seqStep) (hexact : Exact seqStep) (members : List UserId)
    (hs : SmallCounters seqStep hashes (members.map seqKey) s) : groupScriptTextLoop lua seqStep members s =
      .ok (groupScript seqStep members hashes).1 (bumpStored seqStep hashes (members.map seqKey) s) := by
  induction members generalizing hashes s with
  | nil => rfl
  | cons member members ih =>
    have hmem : seqKey member ∈ (member :: members).map seqKey := List.mem_cons_self
    obtain ⟨entry, hbody, hentry⟩ := groupScriptTextBody_stored lua hexact
      (hs.before _ hmem) (hs.head hstep)
    rw [← hs.stored _ hmem, groupScriptBody_eq] at hbody
    rw [groupScriptBody_eq] at hentry
    rw [groupScriptTextLoop, Script.bind_ok (onKey_ok hbody), Script.bind_ok (ih (hs.tail hstep)), hentry,
      groupScript, groupScriptBody_eq]
    rfl

namespace RedisCache

theorem evalSingle_stored (hstep : 1 ≤ seqStep) (hexact : Exact seqStep)
    (hs : SmallCounters seqStep hashes [key] s) : evalSingle lua seqStep key s =
      .ok (singleScript seqStep (hashes key)).2 (bumpStored seqStep hashes [key] s) := by
  have hmem : key ∈ [key] := List.mem_cons_self
  obtain ⟨result, htext, hseq⟩ := singleScriptText_stored lua hexact
    (hs.before _ hmem) (hs.head hstep)
  rw [← hs.stored _ hmem] at htext
  rw [evalSingle, Script.bind_ok (onKey_ok htext), hseq]
  rfl

theorem incrGroupSeq_stored (hstep : 1 ≤ seqStep) (hexact : Exact seqStep) (members : List UserId)
    (hs : SmallCounters seqStep hashes (members.map seqKey) s) : incrGroupSeq lua seqStep members s =
      .ok (groupSeqs seqStep hashes members) (bumpStored seqStep hashes (members.map seqKey) s) := by
  have htext : groupScriptText lua (toString seqStep) members s = _ :=
    (Script.bind_ok (operand_toString hexact s)).trans (groupScriptTextLoop_stored hstep hexact members hs)
  rw [incrGroupSeq, Script.bind_ok htext, collectSeq_groupScript]
  rfl

/-- `increase_seq` on the members one after another. -/
def increaseEach (lua : Lua) (seqStep : Int) : List UserId → Script StoredHashes (List (Int × Int × Bool))
  | [] => pure []
  | member :: members => do
    let seq ← increaseSeq lua seqStep member
    let seqs ← increaseEach lua seqStep members
    pure (seq :: seqs)

theorem increaseEach_stored (hstep : 1 ≤ seqStep) (hexact : Exact seqStep) (members : List UserId)
    (hs : SmallCounters seqStep hashes (members.map seqKey) s) : increaseEach lua seqStep members s =
      .ok ((groupSeqs seqStep hashes members).map fun seq => (seq.curSeq, seq.maxSeq, seq.needUpdate))
        (bumpStored seqStep hashes (members.map seqKey) s) := by
  induction members generalizing hashes s with
  | nil => rfl
  | cons member members ih =>
    have hsplit : SmallCounters seqStep hashes ([seqKey member] ++ members.map seqKey) s := hs
    have hhead := hsplit.left hstep
    rw [increaseEach, increaseSeq, Script.bind_ok (evalSingle_stored hstep hexact hhead)]
    exact Script.bind_ok (ih (hs.tail hstep))

end RedisCache

end Increments

/-- The group script leaves the counters that `increase_seq` on one member after another leaves, and its answer
lists the members with the answers of those calls. -/
def NumbersOneByOne (lua : Lua) (seqStep : Int) (members : List UserId) (s : StoredHashes) : Prop :=
  ∃ seqs t, RedisCache.increaseEach lua seqStep members s = .ok seqs t ∧
    seqs.length = members.length ∧
    RedisCache.incrGroupSeq lua seqStep members s = .ok
      ((members.zip seqs).map fun p => ⟨p.1, p.2.1, p.2.2.1, p.2.2.2⟩) t

/-- While the members' counters are within `2 ^ 53`, the group script numbers them one by one. -/
theorem group_numbers_one_by_one (lua : Lua) (seqStep : Int) (hstep : 1 ≤ seqStep) (hi32 : seqStep < 2 ^ 31)
    (members : List UserId) (hashes : String → SeqHash) (s : StoredHashes)
    (hs : SmallCounters seqStep hashes (members.map seqKey) s) : NumbersOneByOne lua seqStep members s := by
  have hexact : Exact seqStep := exact_iff.mpr (by omega)
  refine ⟨_, _, RedisCache.increaseEach_stored hstep hexact members hs, ?_, ?_⟩
  · have hids := congrArg List.length (groupSeqs_memId seqStep hashes members)
    rwa [List.length_map] at hids ⊢
  · rw [RedisCache.incrGroupSeq_stored hstep hexact members hs]
    congr 1
    have hids := groupSeqs_memId seqStep hashes members
    nth_rewrite 2 [← hids]
    rw [List.zip_map', List.map_map]
    exact (List.map_id _).symm

/-- A server that writes every number in full. -/
def plainLua : Lua := ⟨toString, fun _ => none, fun _ => -2 ^ 63⟩

/-- `u` twice and `v` between, with blocks of two, after `u` was loaded with 3. -/
theorem group_numbers_one_by_one_loaded :
    NumbersOneByOne plainLua 2 ["u", "v", "u"] (RedisCache.setSeq [("u", 0, 3)] fun _ => {}) := by
  refine group_numbers_one_by_one plainLua 2 (by decide) (by decide) ["u", "v", "u"]
    (fun key => if key = seqKey "u" then ⟨some 3, some 3⟩ else {}) _ ⟨?_, ?_, ?_⟩
  · decide
  · decide
  · decide

/-- The answer of a script. -/
def Script.answer {σ α : Type} (script : Script σ α) (s : σ) : Option α :=
  match script s with
  | .ok a _ => some a
  | .error _ _ => none

/-- As a number the text of `2 ^ 53 + 3` is the next one. The group script answers with that number, and
`increase_seq` with the text. -/
theorem group_numbers_not_one_by_one : ¬∀ (lua : Lua) (seqStep : Int), 1 ≤ seqStep → seqStep < 2 ^ 31 →
    ∀ (members : List UserId) (s : StoredHashes), RedisCache.Reachable lua s →
      NumbersOneByOne lua seqStep members s := by
  intro h
  obtain ⟨seqs, t, hone, -, hgroup⟩ := h plainLua 10 (by decide) (by decide) ["u"] _
    (.setSeq [("u", 0, 2 ^ 53 + 3)] .empty)
  have hone' : (RedisCache.increaseEach plainLua 10 ["u"]).answer
      (RedisCache.setSeq [("u", 0, 2 ^ 53 + 3)] fun _ => {}) =
        some [(2 ^ 53 + 4, 2 ^ 53 + 3, false)] := by decide +kernel
  have hgroup' : (RedisCache.incrGroupSeq plainLua 10 ["u"]).answer
      (RedisCache.setSeq [("u", 0, 2 ^ 53 + 3)] fun _ => {}) =
        some [⟨"u", 2 ^ 53 + 4, 2 ^ 53 + 4, false⟩] := by decide +kernel
  rw [Script.answer, hone, Option.some.injEq] at hone'
  subst hone'
  rw [Script.answer, hgroup, Option.some.injEq] at hgroup'
  revert hgroup'
  decide

end Sandcat
