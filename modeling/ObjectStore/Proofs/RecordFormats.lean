import ObjectStore.Proofs.RecordParts

/-
What a record of fixed layout promises. Between a value and the bytes of its record nothing is
lost in either direction, except what padding holds, and a buffer that is too short for a record
is refused as such.
-/
namespace ObjectStore

open Codec

variable {α β : Type}

def TooShort (result : Except DecodeError α) : Prop :=
  ∃ needed offset actual, result = .error (.insufficientData needed offset actual)

theorem TooShort.bind {x : Except DecodeError α} (short : TooShort x)
    (f : α → Except DecodeError β) : TooShort (x >>= f) := by
  obtain ⟨needed, offset, actual, rfl⟩ := short
  exact ⟨needed, offset, actual, rfl⟩

theorem TooShort.map {x : Except DecodeError α} (short : TooShort x) (f : α → β) :
    TooShort (x.map f) := by
  obtain ⟨needed, offset, actual, rfl⟩ := short
  exact ⟨needed, offset, actual, rfl⟩

namespace Encoder

theorem apply_bind_short {w : Encoder Unit} (next : Unit → Encoder Unit) {b : Bytes}
    (short : TooShort (w.apply b)) : TooShort ((w >>= next).apply b) := by
  obtain ⟨needed, offset, actual, failed⟩ := short
  refine ⟨needed, offset, actual, ?_⟩
  unfold apply at failed ⊢
  have step : (w >>= next).on b = ExceptT.bindCont next (w.on b).1 (w.on b).2 := rfl
  rcases run : w.on b with ⟨_ | _, mid⟩
  · rw [step, run]
    rw [run] at failed
    cases failed
    rfl
  · rw [run] at failed
    cases failed

theorem apply_bind_ok {w : Encoder Unit} (next : Unit → Encoder Unit) {b b' : Bytes}
    (first : w.on b = (.ok (), b')) : (w >>= next).apply b = (next ()).apply b' := by
  rw [apply, on_bind_ok next first]
  rfl

theorem apply_write_short {b new : Bytes} {offset : Nat} (short : b.size < offset + new.size)
    (addressable : offset + new.size < Bytes.addressLimit) :
    TooShort ((write offset new).apply b) := by
  refine ⟨new.size, offset, b.size - offset, ?_⟩
  rw [apply, on_write_of_outside (Bytes.rangeError?_of_short short addressable)]

end Encoder

namespace Codec

/-- A buffer that ends within the record is found too short, for reading and for writing. -/
structure Strict (c : Codec α) : Prop where
  read_short : ∀ {e : ByteOrder} {b : Bytes} {offset : Nat}, b.size < offset + c.size →
    offset + c.size < Bytes.addressLimit → TooShort (c.read e b offset)
  write_short : ∀ {e : ByteOrder} {b : Bytes} {offset : Nat} {v : α}, b.size < offset + c.size →
    offset + c.size < Bytes.addressLimit → TooShort ((c.write e offset v).apply b)

theorem wordField_strict (w : Width) (view : UInt64 → β) (fields : β → UInt64) :
    Strict ⟨w.bytes, fun e b offset => (e.read w b offset).map view,
      fun e offset v => e.put w offset (fields v)⟩ where
  read_short {e b offset} short addressable := by
    refine TooShort.map ?_ view
    refine ⟨w.bytes, offset, b.size - offset, ?_⟩
    rw [ByteOrder.read, Bytes.rangeError?_of_short short addressable]
  write_short {e b offset v} short addressable := by
    have size_eq := e.size_bytesOf w (fields v)
    dsimp only at short addressable
    exact Encoder.apply_write_short (by omega) (by omega)

theorem word16_strict : Strict word16 := wordField_strict .two UInt64.toUInt16 UInt16.toUInt64

theorem word32_strict : Strict word32 := wordField_strict .four UInt64.toUInt32 UInt32.toUInt64

theorem word64_strict : Strict word64 := by
  rw [word64_eq]
  exact wordField_strict .eight id id

theorem raw_strict (n : Nat) : Strict (raw n) where
  read_short {e b offset} short addressable := by
    refine ⟨n, offset, b.size - offset, ?_⟩
    have cut := Bytes.rangeError?_of_short short addressable
    change Bytes.fixedSlice b offset n = _
    unfold Bytes.fixedSlice
    split
    · simp_all [raw]
    · simp_all [raw]
  write_short {e b offset v} short addressable := by
    have size_eq : v.val.size = n := v.property
    change b.size < offset + n at short
    change offset + n < Bytes.addressLimit at addressable
    exact Encoder.apply_write_short (by omega) (by omega)

theorem Strict.map {c : Codec α} (strict : Strict c) (view : α → β) (fields : β → α) :
    Strict (c.map view fields) where
  read_short short addressable := (strict.read_short short addressable).map view
  write_short short addressable := strict.write_short short addressable

theorem Strict.seq {c : Codec α} {d : Codec β} {back : α → α} {parts : List (Part α)}
    (hc : Strict c) (laid : Laid c back parts) (hd : Strict d) : Strict (c.seq d) where
  read_short {e b offset} short addressable := by
    simp only [size_seq] at short addressable
    rcases Nat.lt_or_ge b.size (offset + c.size) with first | fits
    · exact (hc.read_short first (by omega)).bind _
    · obtain ⟨x, read⟩ := laid.reads e b offset fits (by omega)
      simp only [Codec.seq, read, ok_bind]
      exact (hd.read_short (by omega) (by omega)).bind _
  write_short {e b offset v} short addressable := by
    simp only [size_seq] at short addressable
    rcases Nat.lt_or_ge b.size (offset + c.size) with first | fits
    · exact Encoder.apply_bind_short _ (hc.write_short first (by omega))
    · obtain ⟨b', done, rewritten⟩ := laid.writes e offset v.1 fits (by omega)
      have size_eq := rewritten.size_eq
      simp only [Codec.seq]
      rw [Encoder.apply_bind_ok _ done]
      exact hd.write_short (by omega) (by omega)

/-- Padding is found missing only by what comes behind it. -/
theorem Strict.padded (n : Nat) {d : Codec β} (hd : Strict d) : Strict ((pad n).seq d) where
  read_short {e b offset} short addressable := by
    simp only [size_seq, ← Nat.add_assoc] at short addressable
    exact (hd.read_short short addressable).bind _
  write_short {e b offset v} short addressable := by
    simp only [size_seq, ← Nat.add_assoc] at short addressable
    have skipped : ((pad n).write e offset v.1).on b = (.ok (), b) := rfl
    simp only [Codec.seq]
    rw [Encoder.apply_bind_ok _ skipped]
    exact hd.write_short short addressable

theorem Strict.table {c : Codec α} {parts : List (Part α)} (strict : Strict c)
    (laid : Laid c id parts) (blank : α) (n : Nat) : Strict (c.table blank (n + 1)) := by
  induction n with
  | zero =>
    refine Strict.map ?_ _ _
    have size_eq : (c.seq (c.table blank 0)).size = c.size := rfl
    refine ⟨fun short addressable => ?_, fun short addressable => ?_⟩
    · rw [size_eq] at short addressable
      exact (strict.read_short short addressable).bind _
    · rw [size_eq] at short addressable
      exact Encoder.apply_bind_short _ (strict.write_short short addressable)
  | succ n ih => exact (strict.seq laid ih).map _ _

structure Exact (c : Codec α) (back : α → α) (parts : List (Part α)) : Prop
    extends Laid c back parts, Strict c

theorem word16_exact : Exact word16 id [.word 0 .two UInt16.toUInt64] :=
  ⟨word16_laid, word16_strict⟩

theorem word32_exact : Exact word32 id [.word 0 .four UInt32.toUInt64] :=
  ⟨word32_laid, word32_strict⟩

theorem word64_exact : Exact word64 id [.word 0 .eight id] := ⟨word64_laid, word64_strict⟩

theorem raw_exact (n : Nat) : Exact (raw n) id [.raw 0 n id] := ⟨raw_laid n, raw_strict n⟩

theorem Exact.seq {c : Codec α} {d : Codec β} {f : α → α} {g : β → β} {parts : List (Part α)}
    {rest : List (Part β)} (hc : Exact c f parts) (hd : Exact d g rest) :
    Exact (c.seq d) (Prod.map f g)
      (parts.map (·.within 0 Prod.fst) ++ rest.map (·.within c.size Prod.snd)) :=
  ⟨hc.toLaid.seq hd.toLaid, hc.toStrict.seq hc.toLaid hd.toStrict⟩

theorem Exact.padded (n : Nat) {d : Codec β} {g : β → β} {rest : List (Part β)}
    (hd : Exact d g rest) : Exact ((pad n).seq d) (Prod.map id g)
      ([Part.padding 0 n].map (·.within 0 Prod.fst) ++ rest.map (·.within n Prod.snd)) :=
  ⟨(pad_laid n).seq hd.toLaid, hd.toStrict.padded n⟩

theorem Exact.map {c : Codec α} {back : α → α} {parts : List (Part α)} (formed : Exact c back parts)
    (view : α → β) (fields : β → α) (recovers : ∀ x, fields (view x) = x) :
    Exact (c.map view fields) (fun v => view (back (fields v)))
      (parts.map (·.within 0 fields)) :=
  ⟨formed.toLaid.map view fields recovers, formed.toStrict.map view fields⟩

theorem Exact.table {c : Codec α} {parts : List (Part α)} (formed : Exact c id parts) (blank : α)
    (n : Nat) : Exact (c.table blank (n + 1)) (filled blank (n + 1))
      ((List.range (n + 1)).flatMap fun i =>
        parts.map (·.within (i * c.size) fun l => l.getD i blank)) :=
  ⟨formed.toLaid.table blank (n + 1), formed.toStrict.table formed.toLaid blank n⟩

theorem Exact.congr {c : Codec α} {back back' : α → α} {parts parts' : List (Part α)}
    (formed : Exact c back parts) (same : ∀ v, back v = back' v) (listed : parts = parts') :
    Exact c back' parts' :=
  ⟨formed.toLaid.congr same listed, formed.toStrict⟩

/-- Nothing but bytes that are missing keeps such a codec from reading. -/
theorem Exact.short_of_error {c : Codec α} {back : α → α} {parts : List (Part α)}
    (formed : Exact c back parts) (addressable : c.size < Bytes.addressLimit) {e : ByteOrder}
    {b : Bytes} {d : DecodeError} (failed : c.read e b 0 = .error d) :
    b.size < c.size ∧ ∃ needed offset actual, d = .insufficientData needed offset actual := by
  have short : b.size < c.size := by
    refine Nat.lt_of_not_le fun fits => ?_
    obtain ⟨v, read⟩ := formed.reads e b 0 (by omega) (by omega)
    rw [read] at failed
    cases failed
  refine ⟨short, ?_⟩
  obtain ⟨needed, offset, actual, refused⟩ := formed.read_short (e := e) (b := b)
    (by omega : b.size < 0 + c.size) (by omega)
  rw [refused] at failed
  cases failed
  exact ⟨needed, offset, actual, rfl⟩

theorem decode_of_fits {c : Codec α} {e : ByteOrder} {b : Bytes} (fits : c.size ≤ b.size) :
    c.decode e b = c.read e b 0 := by
  rw [decode, Bytes.require, if_neg (by omega), ok_bind]

theorem decode_short {c : Codec α} {e : ByteOrder} {b : Bytes} (short : b.size < c.size) :
    TooShort (c.decode e b) := by
  rw [decode, Bytes.require, if_pos short]
  exact ⟨c.size, 0, b.size, rfl⟩

end Codec

/-- A stored form of `size` bytes that is told from its value and tells it, except for the bytes
in `gaps`. Only what `admits` holds of is parsed. -/
structure Faithful (size : Nat) (parts : List (Part α)) (gaps : List Nat) (admits : α → Prop)
    (parse : ByteOrder → Bytes → Except DecodeError α) (encode : ByteOrder → α → Bytes) :
    Prop where
  apart : parts.Pairwise fun p q => p.stop ≤ q.place
  covered : ∀ i < size, ∃ p ∈ parts, p.Covers 0 i
  gaps_eq : Gaps parts gaps
  size_encode : ∀ e v, (encode e v).size = size
  encode_holds : ∀ e v, ∀ p ∈ parts, p.Holds e (encode e v) 0 v
  parse_encode : ∀ e v rest, parse e (encode e v ++ rest) = .ok v ↔ admits v
  held : ∀ e (b : Bytes), size ≤ b.size → ∃ v, ∀ p ∈ parts, p.Holds e b 0 v
  parse_iff : ∀ e (b : Bytes) v, size ≤ b.size →
    (parse e b = .ok v ↔ (∀ p ∈ parts, p.Holds e b 0 v) ∧ admits v)
  encode_parse : ∀ e (b : Bytes) v, parse e b = .ok v → ∀ i < size,
    (encode e v).getPadded i = if i ∈ gaps then 0 else b.getPadded i
  parse_short : ∀ e (b : Bytes), b.size < size → TooShort (parse e b)

/-- Encoding into a buffer replaces its front by the record, and needs room for all of it. -/
structure Placed (size : Nat) (encode : ByteOrder → α → Bytes)
    (into : ByteOrder → α → Encoder Unit) : Prop where
  fits : ∀ e v (b : Bytes), size ≤ b.size →
    (into e v).apply b = .ok (encode e v ++ b.drop size)
  short : ∀ e v (b : Bytes), b.size < size → TooShort ((into e v).apply b)

theorem Codec.Laid.faithful {c : Codec α} {parts : List (Part α)} (laid : Laid c id parts)
    (addressable : c.size < Bytes.addressLimit) {gaps : List Nat} (gaps_eq : Gaps parts gaps)
    {admits : α → Prop} {parse : ByteOrder → Bytes → Except DecodeError α}
    (accepts : ∀ {e b v}, c.size ≤ b.size → (parse e b = .ok v ↔ c.read e b 0 = .ok v ∧ admits v))
    (refuses : ∀ {e b}, b.size < c.size → TooShort (parse e b)) :
    Faithful c.size parts gaps admits parse c.encode := by
  have at_front : ∀ {b : Bytes}, c.size ≤ b.size → 0 + c.size ≤ b.size := by
    intro b fits
    omega
  have addressable' : 0 + c.size < Bytes.addressLimit := by omega
  have parse_iff : ∀ e (b : Bytes) v, c.size ≤ b.size →
      (parse e b = .ok v ↔ (∀ p ∈ parts, p.Holds e b 0 v) ∧ admits v) := by
    intro e b v fits
    rw [accepts fits]
    exact and_congr_left' (laid.read_iff (at_front fits) addressable')
  refine ⟨laid.tiles.apart, ?_, gaps_eq, laid.size_encode addressable, ?_, ?_, ?_, parse_iff, ?_,
    fun _ _ short => refuses short⟩
  · intro i inside
    exact laid.tiles.covered (Nat.zero_le i) inside
  · intro e v
    exact (laid.encode_rewrites addressable e v).holds
  · intro e v rest
    have size_eq := laid.size_encode addressable e v
    rw [parse_iff e _ v (by rw [ByteArray.size_append]; omega), and_iff_right_iff_imp]
    intro _
    apply laid.holds_of_encode addressable
    intro i inside
    rw [Nat.zero_add, Bytes.getPadded_append_left (by omega)]
  · intro e b fits
    obtain ⟨v, read⟩ := laid.reads e b 0 (at_front fits) addressable'
    exact ⟨v, (laid.read_iff (at_front fits) addressable').mp read⟩
  · intro e b v parsed i inside
    rcases Nat.lt_or_ge b.size c.size with short | fits
    · obtain ⟨_, _, _, failed⟩ := refuses (e := e) short
      rw [failed] at parsed
      cases parsed
    · have holds := ((parse_iff e b v fits).mp parsed).1
      rw [laid.encode_of_holds addressable gaps_eq holds inside, Nat.zero_add]

theorem Codec.Exact.placed {c : Codec α} {back : α → α} {parts : List (Part α)}
    (formed : Exact c back parts) (addressable : c.size < Bytes.addressLimit)
    (solid : Gaps parts []) : Placed c.size c.encode fun e v => c.write e 0 v where
  fits e v _ fits := formed.apply_write addressable solid e v fits
  short _ _ _ short := formed.write_short (by omega) (by omega)

/-- Records read with nothing but their length being checked. -/
theorem Codec.Exact.faithful_read {c : Codec α} {parts : List (Part α)} (formed : Exact c id parts)
    (addressable : c.size < Bytes.addressLimit) {gaps : List Nat} (gaps_eq : Gaps parts gaps) :
    Faithful c.size parts gaps (fun _ => True) (fun e b => c.read e b 0) c.encode :=
  formed.faithful addressable gaps_eq (fun _ => (and_iff_left trivial).symm) fun short =>
    formed.read_short (by omega) (by omega)

theorem Codec.Laid.faithful_decode {c : Codec α} {parts : List (Part α)} (laid : Laid c id parts)
    (addressable : c.size < Bytes.addressLimit) {gaps : List Nat} (gaps_eq : Gaps parts gaps) :
    Faithful c.size parts gaps (fun _ => True) c.decode c.encode := by
  refine laid.faithful addressable gaps_eq (fun fits => ?_) decode_short
  rw [decode_of_fits fits, and_iff_left trivial]

end ObjectStore
