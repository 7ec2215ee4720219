import Mathlib.Data.List.Forall2
import ObjectStore.Proofs.Caches
import ObjectStore.Proofs.Queues

/-
A cache beside plain queues of pairs. A shard keeps its entries by address and their ages in a list
of its own; the two never part, and together they are one queue with the oldest pair first.
-/
namespace ObjectStore

variable {α : Type}

def Cache.serve : Request α → Cache α → Option α × Cache α
  | .insert address a, c => (none, c.insert address a)
  | .get address, c => c.get address
  | .clear, c => (none, c.clear)

structure Shard.Queued (s : Shard α) (line : List (BlockAddress × α)) : Prop where
  ages_eq : s.ages = line.map Prod.fst
  once : (line.map Prod.fst).Nodup
  entry_eq : ∀ address, s.entries[address]? = line.lookup address
  size_eq : s.entries.size = line.length

namespace Shard

variable {s : Shard α} {line : List (BlockAddress × α)}

theorem queued_empty : (empty : Shard α).Queued [] :=
  ⟨rfl, List.nodup_nil, fun _ => Std.HashMap.getElem?_empty, Std.HashMap.size_empty⟩

theorem lookup_eq_none_iff {address : BlockAddress} :
    line.lookup address = none ↔ address ∉ line.map Prod.fst := by
  rw [List.lookup_eq_none_iff]
  constructor
  · intro apart mem
    obtain ⟨pair, pair_mem, rfl⟩ := List.mem_map.mp mem
    exact absurd (apart pair pair_mem) (by simp)
  · intro missing pair pair_mem
    rw [bne_iff_ne]
    rintro rfl
    exact missing (List.mem_map_of_mem pair_mem)

theorem Queued.append (queued : s.Queued line) {address : BlockAddress} (a : α)
    (new : line.lookup address = none) :
    Queued ⟨s.entries.insert address a, s.ages ++ [address]⟩ (line ++ [(address, a)]) := by
  have missing := lookup_eq_none_iff.mp new
  have not_held : address ∉ s.entries := by
    rw [Std.HashMap.mem_iff_isSome_getElem?, queued.entry_eq, new]
    exact Bool.false_ne_true
  constructor
  · rw [queued.ages_eq, List.map_append]
    rfl
  · rw [List.map_append, List.nodup_append]
    refine ⟨queued.once, List.pairwise_singleton _ _, fun first mem last last_mem same => ?_⟩
    rw [same, List.mem_singleton.mp last_mem] at mem
    exact missing mem
  · intro other
    rw [Std.HashMap.getElem?_insert, List.lookup_append, queued.entry_eq]
    by_cases same : address = other
    · rw [← same, new]
      simp
    · have differ : (other == address) = false := beq_eq_false_iff_ne.mpr fun h => same h.symm
      simp [same, List.lookup_cons, differ]
  · rw [Std.HashMap.size_insert, if_neg not_held, queued.size_eq, List.length_append]
    rfl

theorem Queued.tail {address : BlockAddress} {a : α} (queued : s.Queued ((address, a) :: line)) :
    Queued ⟨s.entries.erase address, s.ages.tail⟩ line := by
  have missing : address ∉ line.map Prod.fst := (List.nodup_cons.mp queued.once).1
  have held : address ∈ s.entries := by
    rw [Std.HashMap.mem_iff_isSome_getElem?, queued.entry_eq]
    simp [List.lookup_cons_self]
  constructor
  · rw [queued.ages_eq]
    rfl
  · exact (List.nodup_cons.mp queued.once).2
  · intro other
    rw [Std.HashMap.getElem?_erase, queued.entry_eq]
    by_cases same : address = other
    · rw [← same, lookup_eq_none_iff.mpr missing]
      simp
    · have differ : (other == address) = false := beq_eq_false_iff_ne.mpr fun h => same h.symm
      simp [same, List.lookup_cons, differ]
  · rw [Std.HashMap.size_erase, if_pos held, queued.size_eq]
    rfl

/-- A shard is trimmed after every new entry, so it is at most one too many that leaves. -/
theorem Queued.trim (queued : s.Queued line) {limit : Nat} (near : line.length ≤ limit + 1) :
    (s.trim limit).Queued (if limit < line.length then line.tail else line) := by
  have length_eq : s.ages.length = line.length := by rw [queued.ages_eq, List.length_map]
  split
  · rename_i crowded
    obtain ⟨⟨address, a⟩, line, rfl⟩ := List.exists_cons_of_length_pos (Nat.zero_lt_of_lt crowded)
    have excess : s.ages.length - limit = 1 := by omega
    have ages : s.ages = address :: line.map Prod.fst := queued.ages_eq
    have left := queued.tail
    rw [Shard.trim, excess, ages]
    rw [ages] at left
    exact left
  · rename_i enough
    have excess : s.ages.length - limit = 0 := by omega
    rw [Shard.trim, excess]
    exact queued

theorem Queued.insert (queued : s.Queued line) {limit : Nat} (within : line.length ≤ limit)
    (address : BlockAddress) (a : α) :
    (s.insert limit address a).Queued (Queues.enqueue limit address a line) := by
  have holds : s.entries.contains address = (line.lookup address).isSome := by
    rw [Std.HashMap.contains_eq_isSome_getElem?, queued.entry_eq]
  rw [Shard.insert, Queues.enqueue, holds]
  split
  · exact queued
  · rename_i new
    have missing : line.lookup address = none := Option.not_isSome_iff_eq_none.mp new
    apply (queued.append a missing).trim
    rw [List.length_append, List.length_singleton]
    omega

end Shard

theorem forall₂_modify {β γ : Type} {R : β → γ → Prop} {l : List β} {m : List γ} {f : β → β}
    {g : γ → γ} (related : List.Forall₂ R l m) (keeps : ∀ b c, c ∈ m → R b c → R (f b) (g c))
    (i : Nat) : List.Forall₂ R (l.modify i f) (m.modify i g) := by
  induction related generalizing i with
  | nil => simp
  | @cons b c l m first rest ih =>
    cases i with
    | zero => exact .cons (keeps b c List.mem_cons_self first) rest
    | succ i => exact .cons first (ih (fun b c mem => keeps b c (List.mem_cons_of_mem _ mem)) i)

namespace Cache

/-- The shards of a cache are the queues, and every pair is in its place. -/
structure Queued (c : Cache α) (q : Queues α) : Prop where
  limit_eq : c.shardLimit = q.limit
  shards : List.Forall₂ Shard.Queued c.shards.toList q.lines
  sorted : q.Sorted

variable {c : Cache α} {q : Queues α}

theorem Queued.fair (queued : c.Queued q) : q.Fair := by
  refine ⟨queued.sorted, fun line mem => ?_⟩
  obtain ⟨i, lt, rfl⟩ := List.mem_iff_getElem.mp mem
  have inside : i < c.shards.toList.length := by rwa [queued.shards.length_eq]
  exact (queued.shards.get inside lt).once

theorem Queued.index_eq (queued : c.Queued q) (address : BlockAddress) :
    c.shardIndex address = q.index address := by
  rw [shardIndex, Queues.index, ← queued.shards.length_eq, Array.length_toList]

theorem queued_ofCapacity (capacity shardCount : Nat) :
    (ofCapacity capacity shardCount : Cache α).Queued (Queues.ofCapacity capacity shardCount) := by
  have sorted := Queues.sorted_ofCapacity (α := α) capacity shardCount
  unfold ofCapacity
  unfold Queues.ofCapacity at sorted ⊢
  split
  · exact ⟨rfl, .nil, Queues.sorted_of_bare fun line mem => nomatch mem⟩
  · rename_i enabled
    rw [if_neg enabled] at sorted
    refine ⟨rfl, ?_, sorted⟩
    rw [Array.toList_replicate]
    exact List.forall₂_of_length_eq_of_get (by simp) (by simp [Shard.queued_empty])

theorem Queued.get_eq (queued : c.Queued q) (address : BlockAddress) :
    (c.get address).1 = q.get address := by
  rw [Cache.get_eq, Queues.get, queued.index_eq, ← Array.getElem?_toList]
  by_cases inside : q.index address < q.lines.length
  · have inside' : q.index address < c.shards.toList.length := by rwa [queued.shards.length_eq]
    rw [List.getElem?_eq_getElem inside, List.getElem?_eq_getElem inside', Option.bind_some,
      Option.bind_some]
    exact (queued.shards.get inside' inside).entry_eq address
  · have beyond := Nat.le_of_not_lt inside
    rw [List.getElem?_eq_none beyond, List.getElem?_eq_none]
    · rfl
    · rwa [queued.shards.length_eq]

theorem Queued.get (queued : c.Queued q) (address : BlockAddress) :
    (c.get address).2.Queued q := by
  unfold Cache.get
  split
  · exact queued
  · split <;> exact ⟨queued.limit_eq, queued.shards, queued.sorted⟩

theorem Queued.insert (queued : c.Queued q) (address : BlockAddress) (a : α) :
    (c.insert address a).Queued (q.insert address a) := by
  refine ⟨queued.limit_eq, ?_, queued.sorted.insert address a⟩
  rw [Cache.insert, Queues.insert, Array.toList_modify, queued.index_eq, queued.limit_eq]
  exact forall₂_modify queued.shards
    (fun s line mem held => held.insert (queued.sorted.within line mem) address a) _

theorem Queued.clear (queued : c.Queued q) : c.clear.Queued q.clear := by
  refine ⟨queued.limit_eq, ?_, q.sorted_clear⟩
  rw [Cache.clear, Queues.clear, Array.toList_map, List.forall₂_map_left_iff,
    List.forall₂_map_right_iff]
  exact queued.shards.imp fun _ _ _ => Shard.queued_empty

theorem size_foldl {shards : List (Shard α)} {lines : List (List (BlockAddress × α))}
    (queued : List.Forall₂ Shard.Queued shards lines) (n : Nat) :
    shards.foldl (fun n s => n + s.entries.size) n = n + lines.flatten.length := by
  induction queued generalizing n with
  | nil => rfl
  | cons first _ ih =>
    rw [List.foldl_cons, ih, first.size_eq, List.flatten_cons, List.length_append, Nat.add_assoc]

theorem Queued.size_eq (queued : c.Queued q) : c.size = q.total := by
  rw [size, ← Array.foldl_toList, size_foldl queued.shards, Nat.zero_add, Queues.total]

theorem Queued.serve (queued : c.Queued q) (r : Request α) :
    (Cache.serve r c).1 = (Queues.serve r q).1 ∧
      (Cache.serve r c).2.Queued (Queues.serve r q).2 := by
  cases r with
  | insert address a => exact ⟨rfl, queued.insert address a⟩
  | get address => exact ⟨queued.get_eq address, queued.get address⟩
  | clear => exact ⟨rfl, queued.clear⟩

theorem queued_served (capacity shardCount : Nat) (requests : List (Request α)) :
    let (answers, c) := Request.serveAll Cache.serve requests (ofCapacity capacity shardCount)
    let (told, q) := Request.serveAll Queues.serve requests (Queues.ofCapacity capacity shardCount)
    answers = told ∧ c.Queued q :=
  Request.serveAll_alike (fun r _ _ queued => Queued.serve queued r) requests
    (queued_ofCapacity capacity shardCount)

theorem isEnabled_serve (c : Cache α) (r : Request α) :
    (Cache.serve r c).2.isEnabled = c.isEnabled := by
  cases r with
  | insert address a => simp only [Cache.serve, insert, isEnabled, Array.size_modify]
  | get address =>
    rw [Cache.serve, get]
    split
    · rfl
    · split <;> rfl
  | clear => simp only [Cache.serve, clear, isEnabled, Array.size_map]

theorem counts_get (c : Cache α) (address : BlockAddress) :
    (c.get address).2.hits = c.hits + (if (c.get address).1.isSome then 1 else 0) ∧
    (c.get address).2.hits + (c.get address).2.misses
      = c.hits + c.misses + (if c.isEnabled then 1 else 0) := by
  cases shard : c.shards[c.shardIndex address]? with
  | none =>
    have beyond : c.shards.size ≤ c.shardIndex address := Array.getElem?_eq_none_iff.mp shard
    have bare : c.shards.size = 0 := by
      by_contra some_shard
      exact Nat.not_lt.mpr beyond (Nat.mod_lt _ (Nat.pos_of_ne_zero some_shard))
    have disabled : c.isEnabled = false := bne_eq_false_iff_eq.mpr bare
    simp [get, shard, disabled]
  | some s =>
    obtain ⟨inside, -⟩ := Array.getElem?_eq_some_iff.mp shard
    have enabled : c.isEnabled = true := bne_iff_ne.mpr (Nat.ne_zero_of_lt inside)
    cases entry : s.entries[address]? with
    | none => simp [get, shard, entry, enabled, UInt64.add_assoc]
    | some a => simp [get, shard, entry, enabled, UInt64.add_assoc, UInt64.add_comm 1]

/-- Lookups alone are counted, and those that found an entry once more as hits; where nothing can
be stored, nothing is counted. -/
theorem counts_serve (c : Cache α) (r : Request α) :
    (Cache.serve r c).2.hits = c.hits + (if (Cache.serve r c).1.isSome then 1 else 0) ∧
    (Cache.serve r c).2.hits + (Cache.serve r c).2.misses
      = c.hits + c.misses + (if c.isEnabled && r.isGet then 1 else 0) := by
  cases r with
  | get address =>
    rw [Request.isGet, Bool.and_true]
    exact counts_get c address
  | insert address a => simp [Cache.serve, insert, Request.isGet]
  | clear => simp [Cache.serve, clear, Request.isGet]

theorem toUInt64_countP_cons {β : Type} (p : β → Bool) (b : β) (l : List β) :
    ((b :: l).countP p).toUInt64 = (if p b then 1 else 0) + (l.countP p).toUInt64 := by
  rw [List.countP_cons, Nat.toUInt64_eq, UInt64.ofNat_add, UInt64.add_comm]
  split <;> rfl

theorem counts_serveAll (c : Cache α) (requests : List (Request α)) :
    (Request.serveAll Cache.serve requests c).2.hits
      = c.hits + ((Request.serveAll Cache.serve requests c).1.countP Option.isSome).toUInt64 ∧
    (Request.serveAll Cache.serve requests c).2.hits
        + (Request.serveAll Cache.serve requests c).2.misses
      = c.hits + c.misses + (requests.countP fun r => c.isEnabled && r.isGet).toUInt64 := by
  induction requests generalizing c with
  | nil => exact ⟨(UInt64.add_zero _).symm, (UInt64.add_zero _).symm⟩
  | cons r requests ih =>
    obtain ⟨hits, both⟩ := counts_serve c r
    obtain ⟨hits_after, both_after⟩ := ih (Cache.serve r c).2
    rw [isEnabled_serve] at both_after
    rw [Request.serveAll, toUInt64_countP_cons, toUInt64_countP_cons]
    dsimp only
    constructor
    · rw [hits_after, hits, UInt64.add_assoc]
    · rw [both_after, both, UInt64.add_assoc]

theorem fresh_ofCapacity (capacity shardCount : Nat) :
    (ofCapacity capacity shardCount : Cache α).hits = 0 ∧
      (ofCapacity capacity shardCount : Cache α).misses = 0 ∧
      (ofCapacity capacity shardCount : Cache α).isEnabled = decide (capacity ≠ 0) := by
  unfold ofCapacity
  split
  · rename_i none
    rw [none]
    exact ⟨rfl, rfl, rfl⟩
  · rename_i some_room
    have some_shard : min (max shardCount 1) capacity ≠ 0 := by omega
    refine ⟨rfl, rfl, ?_⟩
    rw [decide_eq_true some_room, isEnabled, Array.size_replicate]
    exact bne_iff_ne.mpr some_shard

/-- For every run of requests a cache is plain queues: in every answer, in what can be asked of it
afterwards, in how many entries it holds and in what it has counted, with words that start over
behind the last one. -/
theorem serves_as_queues (capacity shardCount : Nat) (requests : List (Request α)) :
    let (answers, c) := Request.serveAll Cache.serve requests (ofCapacity capacity shardCount)
    let (told, q) := Request.serveAll Queues.serve requests (Queues.ofCapacity capacity shardCount)
    let count := min (max shardCount 1) capacity
    q.lines.length = count ∧ q.limit = (capacity + count - 1) / count ∧ q.Fair ∧
      answers = told ∧ (∀ address, (c.get address).1 = q.get address) ∧ c.size = q.total ∧
      c.hits = (answers.countP Option.isSome).toUInt64 ∧
      c.hits + c.misses
        = (if capacity = 0 then 0 else requests.countP Request.isGet).toUInt64 := by
  obtain ⟨answers_eq, queued⟩ := queued_served capacity shardCount requests
  obtain ⟨hits, both⟩ := counts_serveAll (ofCapacity capacity shardCount) requests
  obtain ⟨count, limit⟩ := Queues.shape_served capacity shardCount requests
  obtain ⟨no_hits, no_misses, enabled⟩ := fresh_ofCapacity (α := α) capacity shardCount
  refine ⟨count, limit, queued.fair, answers_eq, queued.get_eq,
    queued.size_eq, ?_, ?_⟩
  · rw [hits, no_hits, UInt64.zero_add]
  · rw [both, no_hits, no_misses, enabled, UInt64.zero_add, UInt64.zero_add]
    split
    · rename_i none
      simp [none]
    · rename_i some_room
      simp [some_room]

end Cache

end ObjectStore
