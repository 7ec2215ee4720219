import ObjectStore.Cache

/-
What a cache holds was put into it: a property of all entries survives lookups and evictions,
and has to be checked of nothing but the entry that is added. While there is room, all that was
put into it is held.
-/
namespace ObjectStore

variable {α : Type} {P : BlockAddress → α → Prop}

def Shard.All (P : BlockAddress → α → Prop) (s : Shard α) : Prop :=
  ∀ address a, s.entries[address]? = some a → P address a

def Cache.All (P : BlockAddress → α → Prop) (c : Cache α) : Prop :=
  ∀ s ∈ c.shards, s.All P

namespace Shard

theorem all_empty : (empty : Shard α).All P := by
  intro address a found
  rw [empty, Std.HashMap.getElem?_empty] at found
  cases found

theorem found_of_erased {entries : Std.HashMap BlockAddress α} {gone : List BlockAddress}
    {address : BlockAddress} {a : α}
    (found : (gone.foldl (fun entries address => entries.erase address) entries)[address]?
      = some a) : entries[address]? = some a := by
  induction gone generalizing entries with
  | nil => exact found
  | cons first gone ih =>
    have kept := ih found
    rw [Std.HashMap.getElem?_erase] at kept
    split at kept
    · cases kept
    · exact kept

theorem All.trim {s : Shard α} (all : s.All P) (limit : Nat) : (s.trim limit).All P := by
  intro address a found
  exact all address a (found_of_erased found)

theorem All.insert {s : Shard α} (all : s.All P) (limit : Nat) {address : BlockAddress} {a : α}
    (new : P address a) : (s.insert limit address a).All P := by
  unfold Shard.insert
  split
  · exact all
  · apply All.trim
    intro address' a' found
    rw [Std.HashMap.getElem?_insert] at found
    split at found
    · rename_i same
      cases found
      rw [← beq_iff_eq.mp same]
      exact new
    · exact all address' a' found

theorem getElem?_insert {s : Shard α} {limit : Nat} (room : s.ages.length < limit)
    (address other : BlockAddress) (a : α) :
    (s.insert limit address a).entries[other]? =
      if address = other ∧ s.entries[address]? = none then some a else s.entries[other]? := by
  have holds : s.entries.contains address = s.entries[address]?.isSome :=
    Std.HashMap.contains_eq_isSome_getElem?
  unfold insert
  cases entry : s.entries[address]? with
  | some old =>
    rw [entry] at holds
    rw [if_pos (by rw [holds]; rfl)]
    simp
  | none =>
    have no_excess : (s.ages ++ [address]).length - limit = 0 := by
      rw [List.length_append, List.length_singleton]
      omega
    rw [entry] at holds
    rw [if_neg (by rw [holds]; exact Bool.false_ne_true), trim]
    dsimp only
    rw [no_excess, List.take_zero, List.foldl_nil, Std.HashMap.getElem?_insert]
    simp

theorem ages_insert (s : Shard α) (limit : Nat) (address : BlockAddress) (a : α) :
    (s.insert limit address a).ages.length ≤ s.ages.length + 1 := by
  unfold insert
  split
  · omega
  · simp only [trim, List.length_drop, List.length_append, List.length_singleton]
    omega

end Shard

namespace Cache

theorem all_ofCapacity (capacity shardCount : Nat) :
    (ofCapacity capacity shardCount : Cache α).All P := by
  intro s mem
  unfold ofCapacity at mem
  split at mem
  · exact absurd mem (Array.not_mem_empty s)
  · rw [Array.eq_of_mem_replicate mem]
    exact Shard.all_empty

theorem All.mono {Q : BlockAddress → α → Prop} {c : Cache α} (all : c.All P)
    (implies : ∀ address a, P address a → Q address a) : c.All Q :=
  fun s mem address a found => implies address a (all s mem address a found)

theorem All.get {c : Cache α} (all : c.All P) (address : BlockAddress) :
    (c.get address).2.All P ∧ ∀ a, (c.get address).1 = some a → P address a := by
  unfold Cache.get
  split
  · exact ⟨all, fun a found => nomatch found⟩
  · rename_i s shard
    split
    · rename_i a entry
      refine ⟨all, fun a' found => ?_⟩
      cases found
      exact all s (Array.mem_of_getElem? shard) address a entry
    · exact ⟨all, fun a found => nomatch found⟩

theorem All.insert {c : Cache α} (all : c.All P) {address : BlockAddress} {a : α}
    (new : P address a) : (c.insert address a).All P := by
  intro s mem
  obtain ⟨i, lt, same⟩ := Array.mem_iff_getElem.mp mem
  rw [← same]
  simp only [Cache.insert, Array.getElem_modify]
  split
  · exact (all _ (Array.getElem_mem _)).insert c.shardLimit new
  · exact all _ (Array.getElem_mem _)

theorem All.clear (c : Cache α) : c.clear.All P := by
  intro s mem
  obtain ⟨_, _, same⟩ := Array.mem_map.mp mem
  rw [← same]
  exact Shard.all_empty

theorem all_bare {c : Cache α} (bare : c.shards = #[]) : c.All P := by
  intro s mem
  rw [bare] at mem
  exact absurd mem (Array.not_mem_empty s)

theorem get_bare {c : Cache α} (bare : c.shards = #[]) (address : BlockAddress) :
    c.get address = (none, c) := by
  simp [get, bare]

theorem insert_bare {c : Cache α} (bare : c.shards = #[]) (address : BlockAddress) (a : α) :
    (c.insert address a).shards = #[] := by
  simp [insert, bare]

structure Room (n : Nat) (c : Cache α) : Prop where
  enabled : 0 < c.shards.size
  within : ∀ s ∈ c.shards, s.ages.length + n ≤ c.shardLimit

theorem room_ofCapacity {n capacity shardCount : Nat} (some_room : capacity ≠ 0)
    (fits : n ≤ (ofCapacity capacity shardCount : Cache α).shardLimit) :
    (ofCapacity capacity shardCount : Cache α).Room n := by
  rw [ofCapacity, if_neg some_room] at fits ⊢
  constructor
  · rw [Array.size_replicate]
    omega
  · intro s mem
    rw [Array.eq_of_mem_replicate mem, Shard.empty, List.length_nil, Nat.zero_add]
    exact fits

theorem Room.less {n : Nat} {c : Cache α} (room : c.Room (n + 1)) : c.Room 1 :=
  ⟨room.enabled, fun s mem => Nat.le_trans (by omega) (room.within s mem)⟩

@[simp]
theorem get_ofCapacity (capacity shardCount : Nat) (address : BlockAddress) :
    ((ofCapacity capacity shardCount : Cache α).get address).1 = none := by
  have nothing := (all_ofCapacity capacity shardCount : (ofCapacity _ _ : Cache α).All
    fun _ _ => False).get address
  exact Option.eq_none_iff_forall_ne_some.mpr fun a found => nothing.2 a found

theorem get_eq (c : Cache α) (address : BlockAddress) : (c.get address).1
    = c.shards[c.shardIndex address]?.bind fun s => s.entries[address]? := by
  unfold get
  cases c.shards[c.shardIndex address]? with
  | none => rfl
  | some s =>
    rw [Option.bind_some]
    cases entry : s.entries[address]? with
    | none => simp only [entry]
    | some a => simp only [entry]

theorem room_get {n : Nat} {c : Cache α} (room : c.Room n) (address : BlockAddress) :
    (c.get address).2.Room n := by
  unfold Cache.get
  split
  · exact room
  · split
    · exact ⟨room.enabled, room.within⟩
    · exact ⟨room.enabled, room.within⟩

theorem room_insert {n : Nat} {c : Cache α} (room : c.Room (n + 1)) (address : BlockAddress)
    (a : α) : (c.insert address a).Room n := by
  refine ⟨by simpa [Cache.insert] using room.enabled, fun s mem => ?_⟩
  obtain ⟨i, lt, rfl⟩ := Array.mem_iff_getElem.mp mem
  have inside : i < c.shards.size := by simpa [Cache.insert] using lt
  have before := room.within c.shards[i] (Array.getElem_mem inside)
  have more := c.shards[i].ages_insert c.shardLimit address a
  have limit : (c.insert address a).shardLimit = c.shardLimit := rfl
  simp only [Cache.insert, Array.getElem_modify] at limit ⊢
  split
  · omega
  · omega

/-- Where there is room, nothing that was held is dropped for a new entry. -/
theorem get_insert {c : Cache α} (room : c.Room 1) (address other : BlockAddress) (a : α) :
    ((c.insert address a).get other).1 = if address = other ∧ (c.get address).1 = none
      then some a else (c.get other).1 := by
  have inside : ∀ x, c.shardIndex x < c.shards.size := fun x => Nat.mod_lt _ room.enabled
  have index_eq : ∀ x, (c.insert address a).shardIndex x = c.shardIndex x := by
    simp [insert, shardIndex]
  have shards : ∀ x, ∃ s, c.shards[c.shardIndex x]? = some s :=
    fun x => ⟨_, Array.getElem?_eq_getElem (inside x)⟩
  obtain ⟨s, shard⟩ := shards address
  have roomy := room.within s (Array.mem_of_getElem? shard)
  rw [get_eq, get_eq, get_eq, index_eq, insert, Array.getElem?_modify, shard, Option.bind_some]
  by_cases same : c.shardIndex address = c.shardIndex other
  · rw [if_pos same, ← same, shard]
    exact Shard.getElem?_insert (by omega) address other a
  · rw [if_neg same, if_neg fun both => same (congrArg c.shardIndex both.1)]

@[simp]
theorem get_get (c : Cache α) (address other : BlockAddress) :
    ((c.get address).2.get other).1 = (c.get other).1 := by
  rw [get_eq, get_eq]
  unfold get
  split
  · rfl
  · split <;> rfl

end Cache

end ObjectStore
