import Sandcat.Migration

/-!
# Shard numbers

The number of shards of the configuration has 32 bits, and the box keeps the last eight of them. They
are the modulus of a user's shard and the bound of the loops that create the collections. The hash of
a user is any number of 64 bits.
-/

namespace Sandcat

namespace HybridShardedMsgBox

/-- The month of the collections that a loop creates. -/
def monthOf (now monthOffset : Int) : Int × Int :=
  Chrono.addMonths (monthOffset % 2 ^ 32).toNat (Chrono.yearMonth (now / 86400))

theorem mem_collectionsOf {userShards : Nat} {now : Int} {monthOffsets : List Int} {coll : String} :
    coll ∈ collectionsOf userShards now monthOffsets ↔
      ∃ monthOffset ∈ monthOffsets, ∃ range < userShards,
        coll = collectionName (monthOf now monthOffset) range := by
  simp only [collectionsOf, List.mem_flatMap, List.mem_map, List.mem_range, eq_comm (a := coll)]
  rfl

/-- The loops over some months create a collection with this number for every month. -/
def CreatesShard (userShards : Nat) (monthOffsets : List Int) (range : Nat) : Prop :=
  ∀ now, ∀ monthOffset ∈ monthOffsets,
    collectionName (monthOf now monthOffset) range ∈ collectionsOf userShards now monthOffsets

theorem createsShard {userShards range : Nat} (h : range < userShards) (monthOffsets : List Int) :
    CreatesShard userShards monthOffsets range :=
  fun _ monthOffset hmem => mem_collectionsOf.mpr ⟨monthOffset, hmem, range, h, rfl⟩

end HybridShardedMsgBox

open HybridShardedMsgBox

/-- The shard of a user is below the number configured, and the start-up and the maintenance of the
box create collections for it. -/
def ShardInRange (hash : UserId → UInt64) (n : UInt32) (userId : UserId) : Prop :=
  ∃ userShards range, MongoConfig.msgRecBoxRepo ⟨some true, some n.toNat⟩ = .sharded userShards ∧
    getUserRange (fun u => (hash u).toNat) userShards userId = some range ∧ range < n.toNat ∧
    CreatesShard userShards [-1, 0, 1, 2, 3] range ∧ CreatesShard userShards [0, 1, 2, 3] range

section Ranges

variable {hash : String → Nat} {userShards range : Nat} {userId : UserId}

theorem getUserRange_eq_none_iff : getUserRange hash userShards userId = none ↔ userShards = 0 := by
  simp [getUserRange]

theorem getUserRange_lt (h : getUserRange hash userShards userId = some range) :
    range < userShards := by
  unfold getUserRange at h
  split at h
  · cases h
  · rename_i hzero
    cases h
    have hlt := Nat.mod_lt (hash userId) (Nat.pos_of_ne_zero hzero)
    exact lt_of_le_of_lt (Nat.mod_le _ _) hlt

end Ranges

/-- The box of a configuration has the last eight bits of its number of shards. -/
theorem msgRecBoxRepo_sharded (n : UInt32) :
    MongoConfig.msgRecBoxRepo ⟨some true, some n.toNat⟩ = .sharded (n.toNat % 2 ^ 8) := rfl

/-- A user has a shard in range if and only if the number of shards is not a multiple of 256. -/
theorem shard_in_range_iff (hash : UserId → UInt64) (n : UInt32) (userId : UserId) :
    ShardInRange hash n userId ↔ ¬256 ∣ n.toNat := by
  constructor
  · rintro ⟨userShards, range, hbox, hrange, -⟩ hdvd
    rw [msgRecBoxRepo_sharded] at hbox
    cases hbox
    have hnone : getUserRange (fun u => (hash u).toNat) (n.toNat % 2 ^ 8) userId = none :=
      getUserRange_eq_none_iff.mpr (Nat.mod_eq_zero_of_dvd hdvd)
    rw [hnone] at hrange
    cases hrange
  · intro hdvd
    have hzero : n.toNat % 2 ^ 8 ≠ 0 := fun h => hdvd (Nat.dvd_of_mod_eq_zero h)
    cases hrange : getUserRange (fun u => (hash u).toNat) (n.toNat % 2 ^ 8) userId with
    | none => exact absurd (getUserRange_eq_none_iff.mp hrange) hzero
    | some range =>
      have hlt := getUserRange_lt hrange
      have hle := Nat.mod_le n.toNat (2 ^ 8)
      exact ⟨_, range, msgRecBoxRepo_sharded n, hrange, by omega, createsShard hlt _,
        createsShard hlt _⟩

/-- With 256 shards the modulus is zero. -/
theorem shard_not_in_range : ¬∀ (hash : UserId → UInt64) (n : UInt32) (userId : UserId),
    1 ≤ n → ShardInRange hash n userId := by
  intro h
  obtain ⟨userShards, range, hbox, hrange, -⟩ := h (fun _ => 0) 256 "u" (by decide)
  cases hbox
  cases hrange

end Sandcat
