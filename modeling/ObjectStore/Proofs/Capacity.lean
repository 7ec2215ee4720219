import ObjectStore.Proofs.QueuedCaches

/-
How many entries a cache comes to hold. Each shard keeps its own limit, which is rounded up, and so
the shards together keep the capacity only where it is a multiple of their number.
-/
namespace ObjectStore

variable {α : Type}

/-- How many of the numbers below `k` leave the rest `i` when divided by `count`. -/
def share (count k i : Nat) : Nat := k / count + if i < k % count then 1 else 0

theorem share_succ {count k i : Nat} (i_lt : i < count) :
    share count (k + 1) i = share count k i + if k % count = i then 1 else 0 := by
  have some_queue : 0 < count := Nat.zero_lt_of_lt i_lt
  have rest_lt := Nat.mod_lt k some_queue
  have split_up := Nat.div_add_mod k count
  unfold share
  by_cases full : k % count + 1 = count
  · have turn : (k + 1) / count = k / count + 1 ∧ (k + 1) % count = 0 := by
      refine (Nat.div_mod_unique some_queue).mpr ⟨?_, some_queue⟩
      rw [Nat.mul_add]
      omega
    rw [turn.1, turn.2]
    grind
  · have turn : (k + 1) / count = k / count ∧ (k + 1) % count = k % count + 1 :=
      (Nat.div_mod_unique some_queue).mpr ⟨by omega, by omega⟩
    rw [turn.1, turn.2]
    grind

theorem rounded_up_le_iff {count n : Nat} (some_queue : 0 < count) :
    count * ((n + count - 1) / count) ≤ n ↔ count ∣ n := by
  have split_up := Nat.div_add_mod (n + count - 1) count
  have rest_lt := Nat.mod_lt (n + count - 1) some_queue
  constructor
  · intro le
    have even : n = count * ((n + count - 1) / count) := by omega
    exact ⟨_, even⟩
  · rintro ⟨d, rfl⟩
    have quotient : (count * d + count - 1) / count = d := by
      rw [Nat.add_sub_assoc some_queue, Nat.mul_add_div some_queue, Nat.div_eq_of_lt (by omega),
        Nat.add_zero]
    exact Nat.le_of_eq (congrArg (count * ·) quotient)

namespace Queues

theorem total_le {limit : Nat} {lines : List (List (BlockAddress × α))}
    (within : ∀ line ∈ lines, line.length ≤ limit) :
    lines.flatten.length ≤ lines.length * limit := by
  induction lines with
  | nil => exact Nat.zero_le _
  | cons line lines ih =>
    have first := within line List.mem_cons_self
    have rest := ih fun line mem => within line (List.mem_cons_of_mem _ mem)
    rw [List.flatten_cons, List.length_append, List.length_cons, Nat.succ_mul]
    omega

theorem total_modify {f : List (BlockAddress × α) → List (BlockAddress × α)}
    {lines : List (List (BlockAddress × α))} {i : Nat} {line : List (BlockAddress × α)}
    (found : lines[i]? = some line) (longer : (f line).length = line.length + 1) :
    (lines.modify i f).flatten.length = lines.flatten.length + 1 := by
  induction lines generalizing i with
  | nil => cases found
  | cons first lines ih =>
    cases i with
    | zero =>
      cases found
      rw [List.modify_zero_cons, List.flatten_cons, List.flatten_cons, List.length_append,
        List.length_append, longer]
      omega
    | succ i =>
      rw [List.modify_succ_cons, List.flatten_cons, List.flatten_cons, List.length_append,
        List.length_append, ih found]
      omega

structure Filled (q : Queues α) (k : Nat) : Prop where
  length_eq : ∀ i line, q.lines[i]? = some line → line.length = share q.lines.length k i
  below : ∀ line ∈ q.lines, ∀ pair ∈ line, pair.1.toNat < k
  total_eq : q.total = k

theorem filled_ofCapacity (capacity shardCount : Nat) :
    (ofCapacity capacity shardCount : Queues α).Filled 0 := by
  have no_pairs : ∀ line ∈ (ofCapacity capacity shardCount : Queues α).lines, line = [] :=
    bare_ofCapacity capacity shardCount
  refine ⟨fun i line found => ?_, fun line mem pair pair_mem => ?_, ?_⟩
  · rw [no_pairs line (List.mem_of_getElem? found), share, Nat.zero_div, Nat.zero_mod,
      if_neg (Nat.not_lt_zero i)]
    rfl
  · rw [no_pairs line mem] at pair_mem
    cases pair_mem
  · rw [total, List.flatten_eq_nil_iff.mpr no_pairs]
    rfl

/-- The queue whose turn it is has room and takes the next address at its end. -/
theorem Filled.enqueue_next {q : Queues α} {k : Nat} (filled : q.Filled k) (a : α)
    (word : k < UInt64.size) (room : k < q.lines.length * q.limit)
    {line : List (BlockAddress × α)} (found : q.lines[k % q.lines.length]? = some line) :
    enqueue q.limit k.toUInt64 a line = line ++ [(k.toUInt64, a)] := by
  have address_eq : k.toUInt64.toNat = k := UInt64.toNat_ofNat_of_lt word
  have length_eq := filled.length_eq _ line found
  have new : line.lookup k.toUInt64 = none := by
    rw [List.lookup_eq_none_iff]
    intro pair mem
    have lower := filled.below line (List.mem_of_getElem? found) pair mem
    rw [bne_iff_ne]
    rintro same
    rw [← same, address_eq] at lower
    exact Nat.lt_irrefl k lower
  have few : line.length < q.limit := by
    rw [length_eq, share, if_neg (Nat.lt_irrefl _)]
    exact Nat.div_lt_of_lt_mul room
  have no_more : ¬q.limit < (line ++ [(k.toUInt64, a)]).length := by
    rw [List.length_append, List.length_singleton]
    omega
  rw [enqueue, new]
  exact if_neg no_more

theorem Filled.insert {q : Queues α} {k : Nat} (filled : q.Filled k) (a : α)
    (word : k < UInt64.size) (room : k < q.lines.length * q.limit) :
    (q.insert k.toUInt64 a).Filled (k + 1) := by
  have address_eq : k.toUInt64.toNat = k := UInt64.toNat_ofNat_of_lt word
  have some_queue : 0 < q.lines.length := Nat.pos_of_mul_pos_right (Nat.zero_lt_of_lt room)
  have own_eq : q.index k.toUInt64 = k % q.lines.length := by rw [index, address_eq]
  have inside : k % q.lines.length < q.lines.length := Nat.mod_lt _ some_queue
  refine ⟨fun i line found => ?_, fun line mem pair pair_mem => ?_, ?_⟩
  · have count_eq : (q.insert k.toUInt64 a).lines.length = q.lines.length :=
      List.length_modify _ _ _
    rw [count_eq]
    obtain ⟨old, was, ⟨other, rfl⟩ | ⟨own, rfl⟩⟩ := Queues.getElem?_insert found
    · have i_lt : i < q.lines.length := (List.getElem?_eq_some_iff.mp was).1
      rw [own_eq] at other
      rw [filled.length_eq i line was, share_succ i_lt, if_neg other]
      rfl
    · rw [own_eq] at own
      rw [← own] at was ⊢
      rw [filled.enqueue_next a word room was, share_succ inside, if_pos rfl, List.length_append,
        filled.length_eq _ old was]
      rfl
  · obtain ⟨i, found⟩ := List.getElem?_of_mem mem
    obtain ⟨old, was, ⟨-, rfl⟩ | ⟨-, rfl⟩⟩ := Queues.getElem?_insert found
    · exact Nat.lt_succ_of_lt (filled.below line (List.mem_of_getElem? was) pair pair_mem)
    · obtain mem | rfl := mem_enqueue pair_mem
      · exact Nat.lt_succ_of_lt (filled.below old (List.mem_of_getElem? was) pair mem)
      · rw [address_eq]
        exact Nat.lt_succ_self k
  · have found := List.getElem?_eq_getElem inside
    rw [total, Queues.insert, own_eq, total_modify found]
    · rw [← total, filled.total_eq]
    · rw [filled.enqueue_next a word room found]
      exact List.length_append

end Queues

def Request.fill (a : α) (k : Nat) : List (Request α) :=
  (List.range k).map fun n => .insert n.toUInt64 a

theorem Queues.filled_fill (a : α) (capacity shardCount : Nat) {k : Nat} (words : k ≤ UInt64.size)
    (room : k ≤ min (max shardCount 1) capacity *
      ((capacity + min (max shardCount 1) capacity - 1) / min (max shardCount 1) capacity)) :
    (Request.serveAll Queues.serve (Request.fill a k) (ofCapacity capacity shardCount)).2.Filled
      k := by
  induction k with
  | zero => exact filled_ofCapacity capacity shardCount
  | succ k ih =>
    obtain ⟨count, limit⟩ := shape_served capacity shardCount (Request.fill a k)
    have filled := ih (by omega) (by omega)
    have one_more := filled.insert a (by omega) (by rw [count, limit]; omega)
    rw [Request.fill, List.range_succ, List.map_append, Request.serveAll_append]
    exact one_more

namespace Cache

/-- A cache holds at most its limit in every shard, and comes to hold as much. So it keeps its
capacity exactly if that is a multiple of the number of its shards. -/
theorem size_le_capacity_iff (a : α) {capacity : Nat} (word : capacity < UInt64.size)
    (shardCount : Nat) :
    let size requests := (Request.serveAll serve requests (ofCapacity capacity shardCount)).2.size
    let count := min (max shardCount 1) capacity
    let most := count * ((capacity + count - 1) / count)
    (∀ requests : List (Request α), size requests ≤ most) ∧
    (∀ k ≤ most, k ≤ UInt64.size → ∃ requests : List (Request α), size requests = k) ∧
    ((∀ requests : List (Request α), size requests ≤ capacity) ↔ count ∣ capacity) := by
  intro size count most
  have bound : ∀ requests : List (Request α), size requests ≤ most := by
    intro requests
    obtain ⟨-, queued⟩ := queued_served capacity shardCount requests
    obtain ⟨count_eq, limit_eq⟩ := Queues.shape_served capacity shardCount requests
    have total_le := Queues.total_le queued.sorted.within
    rwa [count_eq, limit_eq, ← Queues.total, ← queued.size_eq] at total_le
  have reached : ∀ k ≤ most, k ≤ UInt64.size →
      ∃ requests : List (Request α), size requests = k := by
    intro k room words
    obtain ⟨-, queued⟩ := queued_served capacity shardCount (Request.fill a k)
    have filled := Queues.filled_fill a capacity shardCount words room
    exact ⟨_, queued.size_eq.trans filled.total_eq⟩
  refine ⟨bound, reached, ?_⟩
  have divides_iff : most ≤ capacity ↔ count ∣ capacity := by
    cases capacity with
    | zero =>
      have none : count = 0 := Nat.min_zero _
      exact ⟨fun _ => Nat.dvd_zero _, fun _ => by simp only [most, none, Nat.zero_mul, Nat.le_refl]⟩
    | succ n => exact rounded_up_le_iff (by omega)
  rw [← divides_iff]
  constructor
  · intro kept
    by_contra crowded
    obtain ⟨requests, size_eq⟩ := reached (capacity + 1) (Nat.lt_of_not_le crowded) word
    have too_many := kept requests
    omega
  · intro le requests
    exact Nat.le_trans (bound requests) le

/-- Three entries are no more than three in one shard, and may be more in two. -/
theorem size_le_capacity_iff_three : 3 < UInt64.size ∧
    (∀ requests, (Request.serveAll serve requests (ofCapacity 3 1 : Cache Unit)).2.size ≤ 3) ∧
    (∃ requests, (Request.serveAll serve requests (ofCapacity 3 2 : Cache Unit)).2.size = 4) ∧
    ¬∀ requests, (Request.serveAll serve requests (ofCapacity 3 2 : Cache Unit)).2.size ≤ 3 := by
  have word : 3 < UInt64.size := by decide
  obtain ⟨-, -, one_shard⟩ := size_le_capacity_iff () word 1
  obtain ⟨-, reached, two_shards⟩ := size_le_capacity_iff () word 2
  refine ⟨word, one_shard.mpr (by decide), reached 4 (by decide) (by decide), fun kept => ?_⟩
  exact absurd (two_shards.mp kept) (by decide)

/-- Two shards of a cache for three entries hold four. -/
theorem size_exceeds_capacity :
    (Request.serveAll serve [.insert 0 10, .insert 2 11, .insert 1 12, .insert 3 13]
      (ofCapacity 3 2 : Cache Nat)).2.size = 4 := by
  obtain ⟨-, queued⟩ := queued_served (α := Nat) 3 2
    [.insert 0 10, .insert 2 11, .insert 1 12, .insert 3 13]
  exact queued.size_eq.trans rfl

end Cache

end ObjectStore
