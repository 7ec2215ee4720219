import ObjectStore.Object.Reference

/-
Queues of pairs under addresses, and runs of requests. Each queue drops what has stood in it
longest; without queues nothing is stored.
-/
namespace ObjectStore

variable {α σ τ : Type}

/-- Pairs in the order they came, in queues by address, of at most `limit` pairs each. -/
structure Queues (α : Type) where
  limit : Nat
  lines : List (List (BlockAddress × α))

namespace Queues

def ofCapacity (capacity shardCount : Nat) : Queues α :=
  if capacity = 0 then ⟨0, []⟩
  else
    let count := min (max shardCount 1) capacity
    ⟨(capacity + count - 1) / count, List.replicate count []⟩

def index (q : Queues α) (address : BlockAddress) : Nat := address.toNat % q.lines.length

def get (q : Queues α) (address : BlockAddress) : Option α :=
  q.lines[q.index address]?.bind fun line => line.lookup address

/-- The last place, unless the address has one; if that makes too many, the first pair leaves. -/
def enqueue (limit : Nat) (address : BlockAddress) (a : α) (line : List (BlockAddress × α)) :
    List (BlockAddress × α) :=
  if (line.lookup address).isSome then line
  else
    let longer := line ++ [(address, a)]
    if limit < longer.length then longer.tail else longer

def insert (q : Queues α) (address : BlockAddress) (a : α) : Queues α :=
  { q with lines := q.lines.modify (q.index address) (enqueue q.limit address a) }

def clear (q : Queues α) : Queues α := { q with lines := q.lines.map fun _ => [] }

def total (q : Queues α) : Nat := q.lines.flatten.length

end Queues

inductive Request (α : Type) where
  | insert (address : BlockAddress) (a : α)
  | get (address : BlockAddress)
  | clear

namespace Request

def isGet : Request α → Bool
  | insert _ _ => false
  | get _ => true
  | clear => false

/-- What the requests are answered one by one, and what is left after the last. -/
def serveAll (serve : Request α → σ → Option α × σ) :
    List (Request α) → σ → List (Option α) × σ
  | [], s => ([], s)
  | r :: requests, s =>
      let rest := serveAll serve requests (serve r s).2
      ((serve r s).1 :: rest.1, rest.2)

/-- Two ways to serve that answer alike from alike states, and leave alike states, do so for every
run of requests. -/
theorem serveAll_alike {alike : σ → τ → Prop} {serve : Request α → σ → Option α × σ}
    {serve' : Request α → τ → Option α × τ}
    (step : ∀ r s t, alike s t →
      (serve r s).1 = (serve' r t).1 ∧ alike (serve r s).2 (serve' r t).2)
    (requests : List (Request α)) {s : σ} {t : τ} (start : alike s t) :
    (serveAll serve requests s).1 = (serveAll serve' requests t).1 ∧
      alike (serveAll serve requests s).2 (serveAll serve' requests t).2 := by
  induction requests generalizing s t with
  | nil => exact ⟨rfl, start⟩
  | cons r requests ih =>
    obtain ⟨answer, next⟩ := step r s t start
    obtain ⟨answers, last⟩ := ih next
    refine ⟨?_, last⟩
    dsimp only [serveAll]
    rw [answer, answers]

theorem serveAll_append (serve : Request α → σ → Option α × σ) (before after : List (Request α))
    (s : σ) : (serveAll serve (before ++ after) s).2
      = (serveAll serve after (serveAll serve before s).2).2 := by
  induction before generalizing s with
  | nil => rfl
  | cons r before ih => exact ih (serve r s).2

end Request

def Queues.serve : Request α → Queues α → Option α × Queues α
  | .insert address a, q => (none, q.insert address a)
  | .get address, q => (q.get address, q)
  | .clear, q => (none, q.clear)

namespace Queues

/-- The queues keep their limit, and a pair stands in no queue but that of its address. -/
structure Sorted (q : Queues α) : Prop where
  within : ∀ line ∈ q.lines, line.length ≤ q.limit
  placed : ∀ i line, q.lines[i]? = some line → ∀ pair ∈ line, q.index pair.1 = i

/-- And no address stands there twice. -/
structure Fair (q : Queues α) : Prop extends q.Sorted where
  once : ∀ line ∈ q.lines, (line.map Prod.fst).Nodup

theorem length_enqueue {limit : Nat} {line : List (BlockAddress × α)}
    (within : line.length ≤ limit) (address : BlockAddress) (a : α) :
    (enqueue limit address a line).length ≤ limit := by
  unfold enqueue
  dsimp only
  split
  · exact within
  · split
    · rw [List.length_tail, List.length_append, List.length_singleton]
      omega
    · rename_i enough
      exact Nat.le_of_not_lt enough

theorem mem_enqueue {limit : Nat} {line : List (BlockAddress × α)} {address : BlockAddress} {a : α}
    {pair : BlockAddress × α} (mem : pair ∈ enqueue limit address a line) :
    pair ∈ line ∨ pair = (address, a) := by
  unfold enqueue at mem
  dsimp only at mem
  split at mem
  · exact .inl mem
  · have mem_longer : pair ∈ line ++ [(address, a)] := by
      split at mem
      · exact List.mem_of_mem_tail mem
      · exact mem
    simpa using mem_longer

variable {q : Queues α}

theorem sorted_of_bare (bare : ∀ line ∈ q.lines, line = []) : q.Sorted := by
  refine ⟨fun line mem => ?_, fun i line found pair mem => ?_⟩
  · rw [bare line mem]
    exact Nat.zero_le _
  · rw [bare line (List.mem_of_getElem? found)] at mem
    cases mem

theorem bare_ofCapacity (capacity shardCount : Nat) :
    ∀ line ∈ (ofCapacity capacity shardCount : Queues α).lines, line = [] := by
  intro line mem
  unfold ofCapacity at mem
  split at mem
  · cases mem
  · exact List.eq_of_mem_replicate mem

theorem sorted_ofCapacity (capacity shardCount : Nat) :
    (ofCapacity capacity shardCount : Queues α).Sorted :=
  sorted_of_bare (bare_ofCapacity capacity shardCount)

theorem sorted_clear (q : Queues α) : q.clear.Sorted := by
  apply sorted_of_bare
  intro line mem
  obtain ⟨_, -, rfl⟩ := List.mem_map.mp mem
  rfl

theorem index_insert (q : Queues α) (address other : BlockAddress) (a : α) :
    (q.insert address a).index other = q.index other := by
  rw [index, index, insert, List.length_modify]

/-- What stands in the queues after an insertion: a queue as it was, or the one of the address. -/
theorem getElem?_insert {address : BlockAddress} {a : α} {i : Nat} {line : List (BlockAddress × α)}
    (found : (q.insert address a).lines[i]? = some line) :
    ∃ old, q.lines[i]? = some old ∧
      (q.index address ≠ i ∧ line = old ∨
        q.index address = i ∧ line = enqueue q.limit address a old) := by
  rw [insert, List.getElem?_modify] at found
  obtain ⟨old, was, rfl⟩ := Option.map_eq_some_iff.mp found
  refine ⟨old, was, ?_⟩
  split
  · rename_i own
    exact .inr ⟨own, rfl⟩
  · rename_i other
    exact .inl ⟨other, rfl⟩

theorem Sorted.insert (sorted : q.Sorted) (address : BlockAddress) (a : α) :
    (q.insert address a).Sorted := by
  constructor
  · intro line mem
    obtain ⟨i, found⟩ := List.getElem?_of_mem mem
    obtain ⟨old, was, ⟨-, rfl⟩ | ⟨-, rfl⟩⟩ := getElem?_insert found
    · exact sorted.within line (List.mem_of_getElem? was)
    · exact length_enqueue (sorted.within old (List.mem_of_getElem? was)) address a
  · intro i line found pair mem
    rw [index_insert]
    obtain ⟨old, was, ⟨-, rfl⟩ | ⟨own, rfl⟩⟩ := getElem?_insert found
    · exact sorted.placed i line was pair mem
    · obtain mem | rfl := mem_enqueue mem
      · exact sorted.placed i old was pair mem
      · exact own

theorem shape_ofCapacity (capacity shardCount : Nat) :
    (ofCapacity capacity shardCount : Queues α).lines.length = min (max shardCount 1) capacity ∧
      (ofCapacity capacity shardCount : Queues α).limit =
        (capacity + min (max shardCount 1) capacity - 1) / min (max shardCount 1) capacity := by
  unfold ofCapacity
  split
  · rename_i none
    rw [none, Nat.min_zero, Nat.div_zero]
    exact ⟨rfl, rfl⟩
  · exact ⟨List.length_replicate, rfl⟩

theorem shape_serve (q : Queues α) (r : Request α) :
    (Queues.serve r q).2.lines.length = q.lines.length ∧ (Queues.serve r q).2.limit = q.limit := by
  cases r with
  | insert address a => exact ⟨List.length_modify _ _ _, rfl⟩
  | get address => exact ⟨rfl, rfl⟩
  | clear => exact ⟨List.length_map _, rfl⟩

theorem shape_serveAll (q : Queues α) (requests : List (Request α)) :
    (Request.serveAll Queues.serve requests q).2.lines.length = q.lines.length ∧
      (Request.serveAll Queues.serve requests q).2.limit = q.limit := by
  induction requests generalizing q with
  | nil => exact ⟨rfl, rfl⟩
  | cons r requests ih =>
    obtain ⟨count, limit⟩ := shape_serve q r
    obtain ⟨count_after, limit_after⟩ := ih (Queues.serve r q).2
    exact ⟨count_after.trans count, limit_after.trans limit⟩

theorem shape_served (capacity shardCount : Nat) (requests : List (Request α)) :
    let q := (Request.serveAll Queues.serve requests (ofCapacity capacity shardCount)).2
    let count := min (max shardCount 1) capacity
    q.lines.length = count ∧ q.limit = (capacity + count - 1) / count := by
  obtain ⟨count, limit⟩ := shape_serveAll (ofCapacity (α := α) capacity shardCount) requests
  obtain ⟨count_eq, limit_eq⟩ := shape_ofCapacity (α := α) capacity shardCount
  exact ⟨count.trans count_eq, limit.trans limit_eq⟩

end Queues

end ObjectStore
