import ObjectStore.Proofs.CodecLaws
import ObjectStore.Proofs.Machine

/-
Records of fixed layout, read on a machine. A range is cut out only behind the check that the
buffer has it, and every field is copied to a buffer of its own length.
-/
namespace ObjectStore

namespace Checked

/-- The bytes of a range, after the check that its end is an address inside the buffer. -/
def slice (b : Bytes) (offset len : Nat) : Decoding Bytes :=
  match Machine.checkedAdd 64 offset len with
  | none => throw (.invalidField "offset" "overflow")
  | some stop =>
    if b.size < stop then throw (.insufficientData len offset (b.size - offset))
    else Machine.slice b offset stop

def fixed (b : Bytes) (offset n : Nat) : Decoding Bytes := do
  let range ← slice b offset n
  Machine.copy (Bytes.zeros n) range

def word (e : ByteOrder) (w : Width) (b : Bytes) (offset : Nat) : Decoding UInt64 := do
  let stored ← fixed b offset w.bytes
  return e.wordOf stored.data.toList

theorem slice_runs (b : Bytes) (offset len : Nat) :
    Runs (slice b offset len) (Bytes.slice b offset len) := by
  have limit : Bytes.addressLimit = 2 ^ 64 := rfl
  unfold slice Bytes.slice Bytes.rangeError?
  by_cases fits : offset + len < 2 ^ 64
  · rw [Machine.checkedAdd_eq fits, if_neg (by omega)]
    by_cases short : b.size < offset + len
    · simp only [if_pos short]
      exact .refused _
    · simp only [if_neg short]
      exact .operation (Machine.slice_eq (Nat.le_add_right offset len) (by omega))
  · rw [Machine.checkedAdd, if_neg fits, if_pos (by omega)]
    exact .refused _

theorem size_slice {b cut : Bytes} {offset len : Nat} (run : Bytes.slice b offset len = .ok cut) :
    cut.size = len := by
  unfold Bytes.slice at run
  split at run
  · cases run
  · rename_i inside
    cases run
    rw [Bytes.size_extract_of_le (Bytes.rangeError?_eq_none inside), Nat.add_sub_cancel_left]

theorem fixed_runs (b : Bytes) (offset n : Nat) :
    Runs (fixed b offset n) (Bytes.slice b offset n) := by
  rw [← bind_pure (Bytes.slice b offset n)]
  refine (slice_runs b offset n).bind fun range known => .operation (Machine.copy_eq ?_)
  rw [size_slice known, Bytes.size_zeros]

theorem read_eq_slice (e : ByteOrder) (w : Width) (b : Bytes) (offset : Nat) :
    e.read w b offset
      = (Bytes.slice b offset w.bytes).map fun stored => e.wordOf stored.data.toList := by
  unfold ByteOrder.read Bytes.slice
  cases inside : Bytes.rangeError? b.size offset w.bytes with
  | some err => rfl
  | none => rw [Except.map, Bytes.toList_extract (Bytes.rangeError?_eq_none inside)]

theorem word_runs (e : ByteOrder) (w : Width) (b : Bytes) (offset : Nat) :
    Runs (word e w b offset) (e.read w b offset) := by
  rw [read_eq_slice]
  exact (fixed_runs b offset w.bytes).map _

end Checked

structure Reader (c : Codec α) where
  read : ByteOrder → Bytes → Nat → Decoding α
  read_runs : ∀ e b offset, offset + c.size < 2 ^ 64 →
    Runs (read e b offset) (c.read e b offset)

namespace Reader

open Checked

def word16 : Reader Codec.word16 where
  read e b offset := UInt64.toUInt16 <$> word e .two b offset
  read_runs e b offset _ := (word_runs e .two b offset).map _

def word32 : Reader Codec.word32 where
  read e b offset := UInt64.toUInt32 <$> word e .four b offset
  read_runs e b offset _ := (word_runs e .four b offset).map _

def word64 : Reader Codec.word64 where
  read e b offset := word e .eight b offset
  read_runs e b offset _ := word_runs e .eight b offset

theorem fixedSlice_eq (b : Bytes) (offset n : Nat) :
    Bytes.fixedSlice b offset n = (Bytes.slice b offset n).map (Bytes.fixed n) := by
  unfold Bytes.fixedSlice Bytes.slice
  split
  · rename_i e outside
    rw [outside]
    rfl
  · rename_i inside
    have size_eq : (b.extract offset (offset + n)).size = n := by
      rw [Bytes.size_extract_of_le (Bytes.rangeError?_eq_none inside), Nat.add_sub_cancel_left]
    simp only [inside, Except.map, Bytes.fixed, dif_pos size_eq]

def raw (n : Nat) : Reader (Codec.raw n) where
  read _ b offset := Bytes.fixed n <$> fixed b offset n
  read_runs e b offset _ := by
    change Runs _ (Bytes.fixedSlice b offset n)
    rw [fixedSlice_eq]
    exact (fixed_runs b offset n).map _

def pad (n : Nat) : Reader (Codec.pad n) where
  read _ _ _ := pure ()
  read_runs _ _ _ _ := .done ()

variable {c : Codec α} {d : Codec β}

def seq (r : Reader c) (s : Reader d) : Reader (c.seq d) where
  read e b offset := do
    let x ← r.read e b offset
    let behind ← Machine.add 64 offset c.size
    let y ← s.read e b behind
    return (x, y)
  read_runs e b offset fits := by
    change offset + (c.size + d.size) < 2 ^ 64 at fits
    refine (r.read_runs e b offset (by omega)).bind fun x _ => ?_
    refine .carried (Machine.add_eq (by omega)) ?_
    exact (s.read_runs e b (offset + c.size) (by omega)).bind fun y _ => .done (x, y)

def map (r : Reader c) {view : α → β} {fields : β → α} : Reader (c.map view fields) where
  read e b offset := view <$> r.read e b offset
  read_runs e b offset fits := (r.read_runs e b offset fits).map view

theorem table_read (c : Codec α) (blank : α) (n : Nat) (e : ByteOrder) (b : Bytes)
    (offset : Nat) : (c.table blank n).read e b offset
      = (List.range n).mapM fun i => c.read e b (offset + i * c.size) := by
  induction n generalizing offset with
  | zero => rfl
  | succ n ih =>
    have shift : (fun i => c.read e b (offset + i * c.size)) ∘ Nat.succ
        = fun i => c.read e b (offset + c.size + i * c.size) := by
      funext i
      rw [Function.comp_apply, Nat.succ_mul, Nat.add_assoc, Nat.add_comm c.size]
    rw [List.range_succ_eq_map, List.mapM_cons, List.mapM_map, Nat.zero_mul, Nat.add_zero, shift,
      ← ih]
    change Except.map _ (Except.bind (c.read e b offset) fun x =>
      Except.bind ((c.table blank n).read e b (offset + c.size)) _) = _
    cases c.read e b offset with
    | error err => rfl
    | ok x => cases (c.table blank n).read e b (offset + c.size) <;> rfl

def table (r : Reader c) (blank : α) (n : Nat) : Reader (c.table blank n) where
  read e b offset := (List.range n).mapM fun i => do
    let skipped ← Machine.mul 64 i c.size
    let start ← Machine.add 64 offset skipped
    r.read e b start
  read_runs e b offset fits := by
    rw [Codec.size_table] at fits
    rw [table_read]
    refine .mapM fun i mem => ?_
    have below : (i + 1) * c.size ≤ n * c.size :=
      Nat.mul_le_mul_right _ (List.mem_range.mp mem)
    rw [Nat.add_mul] at below
    refine .carried (Machine.mul_eq (by omega)) ?_
    refine .carried (Machine.add_eq (by omega)) ?_
    exact r.read_runs e b _ (by omega)

def decode (r : Reader c) (e : ByteOrder) (b : Bytes) : Decoding α := do
  ofExcept (Bytes.require b c.size)
  r.read e b 0

theorem decode_runs (r : Reader c) (short : c.size < 2 ^ 64) (e : ByteOrder) (b : Bytes) :
    Runs (r.decode e b) (c.decode e b) :=
  (Runs.ofExcept (Bytes.require b c.size)).bind fun _ _ => r.read_runs e b 0 (by omega)

end Reader

end ObjectStore
