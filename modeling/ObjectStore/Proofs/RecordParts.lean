import ObjectStore.Proofs.CodecLaws
import ObjectStore.Proofs.Outcomes

/-
Records as tables of parts. A part lies at a fixed place of its record and holds the bytes that a
value has there; padding holds nothing. The parts of a codec lie side by side, it reads a value
exactly where the parts hold what they should, and it writes these bytes and no others.
-/
namespace ObjectStore

namespace Bytes

/-- The `n` bytes from a place on, with zeros past the end. -/
def span (b : Bytes) (place n : Nat) : List UInt8 :=
  (List.range n).map fun i => b.getPadded (place + i)

theorem length_span (b : Bytes) (place n : Nat) : (b.span place n).length = n := by
  simp [span]

theorem span_eq_span {b b' : Bytes} {place place' n : Nat} :
    b.span place n = b'.span place' n ↔
      ∀ i < n, b.getPadded (place + i) = b'.getPadded (place' + i) := by
  simp [span]

theorem span_eq_list {b : Bytes} {place n : Nat} {l : List UInt8} (length_eq : l.length = n) :
    b.span place n = l ↔ ∀ i (h : i < l.length), b.getPadded (place + i) = l[i] := by
  subst length_eq
  constructor
  · intro same i h
    have at_i := List.getElem_of_eq same (i := i) (by simpa [length_span] using h)
    simpa [span] using at_i
  · intro holds
    exact ByteOrder.range_map_getPadded holds

end Bytes

structure Part (α : Type) where
  place : Nat
  len : Nat
  /-- The bytes that a value has there; padding has none. -/
  spell : Option (ByteOrder → α → List UInt8)

namespace Part

variable {α β : Type}

def word (place : Nat) (w : Width) (value : α → UInt64) : Part α :=
  ⟨place, w.bytes, some fun e v => e.bytesOf w (value v)⟩

def raw (place n : Nat) (value : α → FixedBytes n) : Part α :=
  ⟨place, n, some fun _ v => (value v).val.data.toList⟩

def padding (place n : Nat) : Part α := ⟨place, n, none⟩

def stop (p : Part α) : Nat := p.place + p.len

def isPadding (p : Part α) : Bool := p.spell.isNone

def Covers (p : Part α) (offset i : Nat) : Prop := offset + p.place ≤ i ∧ i < offset + p.stop

/-- What lies in the part, in a record that begins at `offset`, is what `v` has there. -/
def Holds (p : Part α) (e : ByteOrder) (b : Bytes) (offset : Nat) (v : α) : Prop :=
  ∀ spell ∈ p.spell, b.span (offset + p.place) p.len = spell e v

def within (p : Part α) (start : Nat) (field : β → α) : Part β :=
  ⟨start + p.place, p.len, p.spell.map fun spell e v => spell e (field v)⟩

variable {p : Part α} {e : ByteOrder} {b b' : Bytes} {offset i start : Nat}

@[simp] theorem holds_within {field : β → α} {v : β} :
    (p.within start field).Holds e b offset v ↔ p.Holds e b (offset + start) (field v) := by
  simp [Holds, within, Nat.add_assoc]

@[simp] theorem covers_within {field : β → α} :
    (p.within start field).Covers offset i ↔ p.Covers (offset + start) i := by
  simp [Covers, within, stop, Nat.add_assoc]

@[simp] theorem covers_padding {place n : Nat} :
    (padding place n : Part α).Covers offset i ↔
      offset + place ≤ i ∧ i < offset + (place + n) := Iff.rfl

@[simp] theorem isPadding_within {field : β → α} :
    (p.within start field).isPadding = p.isPadding := by
  simp [isPadding, within]

theorem within_within {γ : Type} {offset : Nat} {field : β → α} {outer : γ → β} :
    (p.within start field).within offset outer = p.within (offset + start) (field ∘ outer) := by
  simp [within, Nat.add_assoc, Function.comp_def]

@[simp] theorem isPadding_word {place : Nat} {w : Width} {value : α → UInt64} :
    (word place w value).isPadding = false := rfl

@[simp] theorem isPadding_raw {place n : Nat} {value : α → FixedBytes n} :
    (raw place n value).isPadding = false := rfl

@[simp] theorem isPadding_padding {place n : Nat} :
    (padding place n : Part α).isPadding = true := rfl

theorem holds_word {place : Nat} {w : Width} {value : α → UInt64} {v : α} :
    (word place w value).Holds e b offset v ↔
      b.span (offset + place) w.bytes = e.bytesOf w (value v) := by
  simp [Holds, word]

/-- Where a part holds a word, that word is read. -/
theorem field_of_holds {place : Nat} {w : Width} {value : α → UInt64} {v : α}
    (holds : (word place w value).Holds e b offset v) :
    e.field w b (offset + place) = e.wordOf (e.bytesOf w (value v)) :=
  congrArg e.wordOf (holds_word.mp holds)

theorem holds_congr {offset' : Nat} {v : α}
    (same : ∀ i, p.Covers 0 i → b.getPadded (offset + i) = b'.getPadded (offset' + i))
    (holds : p.Holds e b offset v) : p.Holds e b' offset' v := by
  intro spell mem
  rw [← holds spell mem, eq_comm, Bytes.span_eq_span]
  intro i lt
  have at_i := same (p.place + i) (by simp only [Covers, stop]; omega)
  simpa [Nat.add_assoc] using at_i

/-- Two records that hold the same in a part that is no padding have the same bytes there. -/
theorem byte_eq_of_holds {offset' : Nat} {v : α} (meant : p.isPadding = false)
    (holds : p.Holds e b offset v) (holds' : p.Holds e b' offset' v) (covers : p.Covers 0 i) :
    b.getPadded (offset + i) = b'.getPadded (offset' + i) := by
  obtain ⟨spell, mem⟩ : ∃ spell, p.spell = some spell := by
    cases spelled : p.spell with
    | none => simp [isPadding, spelled] at meant
    | some spell => exact ⟨spell, rfl⟩
  have same := (holds spell mem).trans (holds' spell mem).symm
  simp only [Covers, stop, Nat.zero_add] at covers
  have at_i := Bytes.span_eq_span.mp same (i - p.place) (by omega)
  have place : p.place + (i - p.place) = i := by omega
  simpa [Nat.add_assoc, place] using at_i

end Part

inductive Tiles : Nat → Nat → List (Part α) → Prop where
  | nil (stop : Nat) : Tiles stop stop []
  | cons {start stop : Nat} {p : Part α} {rest : List (Part α)} (first : p.place = start)
      (tail : Tiles p.stop stop rest) : Tiles start stop (p :: rest)

namespace Tiles

variable {α β : Type} {start middle stop : Nat} {parts rest : List (Part α)}

theorem one (n : Nat) (spell : Option (ByteOrder → α → List UInt8)) :
    Tiles 0 n [⟨0, n, spell⟩] := by
  refine .cons rfl ?_
  simpa [Part.stop] using Tiles.nil (α := α) n

theorem append (tiles : Tiles start middle parts) (behind : Tiles middle stop rest) :
    Tiles start stop (parts ++ rest) := by
  induction tiles with
  | nil => exact behind
  | cons first _ ih => exact .cons first (ih behind)

theorem within (tiles : Tiles start stop parts) (offset : Nat) (field : β → α) :
    Tiles (offset + start) (offset + stop) (parts.map (·.within offset field)) := by
  induction tiles with
  | nil => exact .nil _
  | cons first _ ih =>
    refine .cons (by simp [Part.within, first]) ?_
    simpa [Part.stop, Part.within, Nat.add_assoc] using ih

theorem bounds (tiles : Tiles start stop parts) :
    start ≤ stop ∧ ∀ p ∈ parts, start ≤ p.place ∧ p.stop ≤ stop := by
  induction tiles with
  | nil => simp
  | cons first _ ih =>
    obtain ⟨le, each⟩ := ih
    simp only [Part.stop] at le each ⊢
    refine ⟨by omega, fun q mem => ?_⟩
    rcases List.mem_cons.mp mem with rfl | later
    · omega
    · have := each q later
      omega

theorem inside (tiles : Tiles start stop parts) {p : Part α} (mem : p ∈ parts) {offset i : Nat}
    (covers : p.Covers offset i) : offset + start ≤ i ∧ i < offset + stop := by
  have bounds := tiles.bounds.2 p mem
  simp only [Part.Covers] at covers
  omega

/-- No part overlaps a later one. -/
theorem apart (tiles : Tiles start stop parts) :
    parts.Pairwise fun p q => p.stop ≤ q.place := by
  induction tiles with
  | nil => exact .nil
  | cons _ tail ih => exact .cons (fun q mem => (tail.bounds.2 q mem).1) ih

/-- No byte is left out. -/
theorem covered (tiles : Tiles start stop parts) {i : Nat} (from_start : start ≤ i)
    (before : i < stop) : ∃ p ∈ parts, p.Covers 0 i := by
  induction tiles with
  | nil => omega
  | @cons start stop p rest first _ ih =>
    rcases Nat.lt_or_ge i p.stop with here | later
    · exact ⟨p, List.mem_cons_self, by simp only [Part.Covers]; omega⟩
    · obtain ⟨q, mem, covers⟩ := ih later before
      exact ⟨q, List.mem_cons_of_mem _ mem, covers⟩

theorem unique (tiles : Tiles start stop parts) {p q : Part α} (mem : p ∈ parts)
    (mem' : q ∈ parts) {i : Nat} (covers : p.Covers 0 i) (covers' : q.Covers 0 i) : p = q := by
  simp only [Part.Covers] at covers covers'
  induction tiles with
  | nil => simp at mem
  | cons _ tail ih =>
    rcases List.mem_cons.mp mem with rfl | later
    · rcases List.mem_cons.mp mem' with rfl | later'
      · rfl
      · have := (tail.bounds.2 q later').1
        omega
    · rcases List.mem_cons.mp mem' with rfl | later'
      · have := (tail.bounds.2 p later).1
        omega
      · exact ih later later'

theorem outside_of_padding (tiles : Tiles start stop parts) {p : Part α} (mem : p ∈ parts)
    (padding : p.isPadding = true) {i : Nat} (covers : p.Covers 0 i) :
    ∀ q ∈ parts, q.isPadding = false → ¬q.Covers 0 i := by
  intro q mem' meant covers'
  obtain rfl := tiles.unique mem mem' covers covers'
  simp [padding] at meant

end Tiles

def Gaps (parts : List (Part α)) (gaps : List Nat) : Prop :=
  ∀ i, i ∈ gaps ↔ ∃ p ∈ parts, p.isPadding = true ∧ p.Covers 0 i

theorem gaps_nil {parts : List (Part α)} (solid : ∀ p ∈ parts, p.isPadding = false) :
    Gaps parts [] := by
  intro i
  simp only [List.not_mem_nil, false_iff]
  rintro ⟨p, mem, padding, -⟩
  simp [solid p mem] at padding

structure Rewritten (parts : List (Part α)) (e : ByteOrder) (offset : Nat) (v : α)
    (b b' : Bytes) : Prop where
  size_eq : b'.size = b.size
  holds : ∀ p ∈ parts, p.Holds e b' offset v
  kept : ∀ i, (∀ p ∈ parts, p.isPadding = false → ¬p.Covers offset i) →
    b'.getPadded i = b.getPadded i

namespace Codec

structure Laid (c : Codec α) (back : α → α) (parts : List (Part α)) : Prop where
  tiles : Tiles 0 c.size parts
  reads : ∀ e b offset, offset + c.size ≤ b.size → offset + c.size < Bytes.addressLimit →
    ∃ v, c.read e b offset = .ok (back v)
  read_iff : ∀ {e b offset v}, offset + c.size ≤ b.size →
    offset + c.size < Bytes.addressLimit →
    (c.read e b offset = .ok (back v) ↔ ∀ p ∈ parts, p.Holds e b offset v)
  writes : ∀ e offset v {b : Bytes}, offset + c.size ≤ b.size →
    offset + c.size < Bytes.addressLimit →
    ∃ b', (c.write e offset v).on b = (.ok (), b') ∧ Rewritten parts e offset v b b'

theorem wordField_laid {β : Type} (w : Width) (view : UInt64 → β) (fields : β → UInt64)
    (recovers : ∀ e v, view (ByteOrder.wordOf e (e.bytesOf w (fields v))) = v)
    (keeps : ∀ x : UInt64, x.toNat < byteLimit w.bytes → fields (view x) = x) :
    Laid ⟨w.bytes, fun e b offset => (e.read w b offset).map view,
      fun e offset v => e.put w offset (fields v)⟩ id [.word 0 w fields] where
  tiles := .one w.bytes _
  reads e b offset fits addressable := by
    dsimp only at fits addressable ⊢
    rw [ByteOrder.read_eq fits addressable]
    exact ⟨_, rfl⟩
  read_iff {e b offset v} fits addressable := by
    dsimp only at fits addressable ⊢
    rw [ByteOrder.read_eq fits addressable, List.forall_mem_singleton, Part.holds_word,
      Nat.add_zero]
    have width := w.bytes_le
    have length_eq := b.length_span offset w.bytes
    have below := e.toNat_wordOf_lt (l := b.span offset w.bytes) (by omega)
    rw [length_eq] at below
    constructor
    · intro same
      have same : view (e.field w b offset) = v := Except.ok.inj same
      subst same
      have word : e.field w b offset = e.wordOf (b.span offset w.bytes) := rfl
      rw [word, keeps _ below]
      exact ByteOrder.eq_bytesOf length_eq below rfl
    · intro same
      exact congrArg Except.ok ((congrArg (view ∘ e.wordOf) same).trans (recovers e v))
  writes e offset v b fits addressable := by
    dsimp only at fits addressable ⊢
    have size_eq := e.size_bytesOf w (fields v)
    have fits' : offset + (Bytes.ofList (e.bytesOf w (fields v))).size ≤ b.size := by omega
    refine ⟨_, Encoder.on_write_of_fits fits' (by omega), Bytes.size_overwrite fits', ?_, ?_⟩
    · rw [List.forall_mem_singleton, Part.holds_word, Nat.add_zero,
        Bytes.span_eq_list (e.length_bytesOf w _)]
      intro i h
      rw [Bytes.getPadded_overwrite fits', if_pos (by rw [Bytes.size_ofList]; omega),
        Nat.add_sub_cancel_left, Bytes.getPadded_ofList h]
    · intro i elsewhere
      have outside := elsewhere _ (List.mem_singleton_self _) rfl
      simp only [Part.Covers, Part.word, Part.stop] at outside
      rw [Bytes.getPadded_overwrite fits', if_neg (by omega)]

theorem word16_laid : Laid word16 id [.word 0 .two UInt16.toUInt64] := by
  refine wordField_laid .two UInt64.toUInt16 _ ByteOrder.toUInt16_wordOf_bytesOf fun x small => ?_
  apply UInt64.toNat_inj.mp
  rw [UInt16.toNat_toUInt64, UInt64.toNat_toUInt16]
  exact Nat.mod_eq_of_lt small

theorem word32_laid : Laid word32 id [.word 0 .four UInt32.toUInt64] := by
  refine wordField_laid .four UInt64.toUInt32 _ ByteOrder.toUInt32_wordOf_bytesOf fun x small => ?_
  apply UInt64.toNat_inj.mp
  rw [UInt32.toNat_toUInt64, UInt64.toNat_toUInt32]
  exact Nat.mod_eq_of_lt small

theorem word64_laid : Laid word64 id [.word 0 .eight id] := by
  rw [word64_eq]
  exact wordField_laid .eight id id ByteOrder.wordOf_bytesOf fun _ _ => rfl

theorem fixedSlice_of_fits {b : Bytes} {offset n : Nat} (fits : offset + n ≤ b.size)
    (addressable : offset + n < Bytes.addressLimit) : ∃ v : FixedBytes n,
      Bytes.fixedSlice b offset n = .ok v ∧ v.val = b.extract offset (offset + n) := by
  have inside := Bytes.rangeError?_of_fits fits addressable
  unfold Bytes.fixedSlice
  split
  · simp_all
  · exact ⟨_, rfl, rfl⟩

theorem raw_laid (n : Nat) : Laid (raw n) id [.raw 0 n id] where
  tiles := .one n _
  reads e b offset fits addressable := by
    obtain ⟨v, read, -⟩ := fixedSlice_of_fits fits addressable
    exact ⟨v, read⟩
  read_iff {e b offset v} fits addressable := by
    obtain ⟨w, read, cut⟩ := fixedSlice_of_fits (n := n) fits addressable
    have listed : b.span offset n = w.val.data.toList := by
      rw [cut]
      exact (Bytes.toList_extract fits).symm
    change Bytes.fixedSlice b offset n = .ok v ↔ _
    rw [read, List.forall_mem_singleton]
    simp only [Part.Holds, Part.raw, Option.mem_def, Option.some.injEq, forall_eq', Nat.add_zero,
      listed, id, Except.ok.injEq]
    exact ⟨fun same => by rw [same], fun same =>
      Subtype.ext (ByteArray.ext (Array.toList_inj.mp same))⟩
  writes e offset v b fits addressable := by
    have size_eq : v.val.size = n := v.property
    change offset + n ≤ b.size at fits
    change offset + n < Bytes.addressLimit at addressable
    have fits' : offset + v.val.size ≤ b.size := by omega
    refine ⟨_, Encoder.on_write_of_fits fits' (by omega), Bytes.size_overwrite fits', ?_, ?_⟩
    · simp only [List.forall_mem_singleton, Part.Holds, Part.raw, Option.mem_def,
        Option.some.injEq, forall_eq', Nat.add_zero, id]
      rw [Bytes.span_eq_list size_eq]
      intro i h
      have lt : i < v.val.size := h
      rw [Bytes.getPadded_overwrite fits', if_pos (by omega), Nat.add_sub_cancel_left,
        Bytes.getPadded_of_lt lt]
      rfl
    · intro i elsewhere
      have outside := elsewhere _ (List.mem_singleton_self _) rfl
      simp only [Part.Covers, Part.raw, Part.stop] at outside
      rw [Bytes.getPadded_overwrite fits', if_neg (by omega)]

theorem pad_laid (n : Nat) : Laid (pad n) id [.padding 0 n] where
  tiles := .one n _
  reads _ _ _ _ _ := ⟨(), rfl⟩
  read_iff _ _ := by simp [pad, Part.Holds, Part.padding]
  writes _ _ _ b _ _ := ⟨b, rfl, rfl, by simp [Part.Holds, Part.padding], fun _ _ => rfl⟩

theorem Laid.congr {c : Codec α} {back back' : α → α} {parts parts' : List (Part α)}
    (laid : Laid c back parts) (same : ∀ v, back v = back' v) (listed : parts = parts') :
    Laid c back' parts' := by
  obtain rfl : back = back' := funext same
  rwa [← listed]

theorem Laid.map {c : Codec α} {back : α → α} {parts : List (Part α)} (laid : Laid c back parts)
    (view : α → β) (fields : β → α) (recovers : ∀ x, fields (view x) = x) :
    Laid (c.map view fields) (fun v => view (back (fields v)))
      (parts.map (·.within 0 fields)) where
  tiles := by
    have tiles := laid.tiles.within 0 fields
    rwa [Nat.zero_add, Nat.zero_add] at tiles
  reads e b offset fits addressable := by
    obtain ⟨x, read⟩ := laid.reads e b offset fits addressable
    exact ⟨view x, by simp [Codec.map, read, Except.map, recovers]⟩
  read_iff {e b offset v} fits addressable := by
    have iff := laid.read_iff (e := e) (v := fields v) fits addressable
    simp only [Codec.map, List.forall_mem_map, Part.holds_within, Nat.add_zero, ← iff]
    rw [map_eq_ok]
    constructor
    · rintro ⟨x, read, same⟩
      rw [read, ← recovers x, same, recovers]
    · intro read
      exact ⟨_, read, rfl⟩
  writes e offset v b fits addressable := by
    obtain ⟨b', done, rewritten⟩ := laid.writes e offset (fields v) fits addressable
    refine ⟨b', done, rewritten.size_eq, ?_, ?_⟩
    · simpa using rewritten.holds
    · simpa using rewritten.kept

theorem Laid.seq {c : Codec α} {d : Codec β} {f : α → α} {g : β → β} {parts : List (Part α)}
    {rest : List (Part β)} (hc : Laid c f parts) (hd : Laid d g rest) :
    Laid (c.seq d) (Prod.map f g)
      (parts.map (·.within 0 Prod.fst) ++ rest.map (·.within c.size Prod.snd)) where
  tiles := by
    have front := hc.tiles.within 0 (Prod.fst (β := β))
    have behind := hd.tiles.within c.size (Prod.snd (α := α))
    rw [Nat.zero_add, Nat.zero_add] at front
    exact front.append behind
  reads e b offset fits addressable := by
    simp only [size_seq] at fits addressable
    obtain ⟨x, first⟩ := hc.reads e b offset (by omega) (by omega)
    obtain ⟨y, second⟩ := hd.reads e b (offset + c.size) (by omega) (by omega)
    exact ⟨(x, y), bind_eq_ok.mpr ⟨f x, first, bind_eq_ok.mpr ⟨g y, second, rfl⟩⟩⟩
  read_iff {e b offset v} fits addressable := by
    simp only [size_seq] at fits addressable
    have first : c.read e b offset = .ok (f v.1) ↔ ∀ p ∈ parts, p.Holds e b offset v.1 :=
      hc.read_iff (by omega) (by omega)
    have second : d.read e b (offset + c.size) = .ok (g v.2) ↔
        ∀ p ∈ rest, p.Holds e b (offset + c.size) v.2 := hd.read_iff (by omega) (by omega)
    simp only [List.forall_mem_append, List.forall_mem_map, Part.holds_within, Nat.add_zero,
      ← first, ← second, Codec.seq, bind_eq_ok]
    constructor
    · rintro ⟨x, read, y, read', same⟩
      cases same
      exact ⟨read, read'⟩
    · rintro ⟨read, read'⟩
      exact ⟨_, read, _, read', rfl⟩
  writes e offset v b fits addressable := by
    simp only [size_seq] at fits addressable
    obtain ⟨b₁, first, rewritten₁⟩ := hc.writes e offset v.1 (b := b) (by omega) (by omega)
    have size₁ := rewritten₁.size_eq
    obtain ⟨b₂, second, rewritten₂⟩ := hd.writes e (offset + c.size) v.2 (b := b₁)
      (by omega) (by omega)
    -- What is written second lies behind all parts of the first record.
    have before : ∀ i, i < offset + c.size → b₂.getPadded i = b₁.getPadded i := by
      intro i lt
      apply rewritten₂.kept
      intro p _ _ covers
      have := covers.1
      omega
    refine ⟨b₂, ?_, by rw [rewritten₂.size_eq, size₁], ?_, ?_⟩
    · simp only [Codec.seq]
      rw [Encoder.on_bind_ok _ first]
      exact second
    · simp only [List.forall_mem_append, List.forall_mem_map, Part.holds_within, Nat.add_zero]
      refine ⟨fun p mem => ?_, rewritten₂.holds⟩
      refine Part.holds_congr (fun i covers => ?_) (rewritten₁.holds p mem)
      have inside := hc.tiles.inside mem covers
      exact (before _ (by omega)).symm
    · intro i elsewhere
      simp only [List.forall_mem_append, List.forall_mem_map, Part.isPadding_within,
        Part.covers_within, Nat.add_zero] at elsewhere
      rw [rewritten₂.kept i elsewhere.2, rewritten₁.kept i elsewhere.1]

/-- Record `i` of a table lies behind those before it. -/
theorem Laid.table {c : Codec α} {parts : List (Part α)} (laid : Laid c id parts) (blank : α)
    (n : Nat) : Laid (c.table blank n) (filled blank n)
      ((List.range n).flatMap fun i =>
        parts.map (·.within (i * c.size) fun l => l.getD i blank)) := by
  induction n with
  | zero =>
    exact ⟨.nil 0, fun _ _ _ _ _ => ⟨[], rfl⟩, fun _ _ => iff_of_true rfl (by simp),
      fun _ _ _ b _ _ => ⟨b, rfl, rfl, by simp, fun _ _ => rfl⟩⟩
  | succ n ih =>
    refine ((laid.seq ih).map _ _ fun _ => rfl).congr (fun _ => rfl) ?_
    have shift : ∀ i, c.size + i * c.size = (i + 1) * c.size := by
      intro i
      rw [Nat.add_mul, Nat.one_mul, Nat.add_comm]
    simp [List.range_succ_eq_map, List.flatMap_map, List.map_flatMap, Part.within_within,
      Function.comp_def, List.head?_eq_getElem?, shift]

section

variable {c : Codec α} {back : α → α} {parts : List (Part α)}

/-- Where the same bytes lie, the same is read. -/
theorem Laid.read_congr (laid : Laid c back parts) {e : ByteOrder} {b b' : Bytes}
    {offset offset' : Nat} {x : α}
    (fits : offset + c.size ≤ b.size) (addressable : offset + c.size < Bytes.addressLimit)
    (fits' : offset' + c.size ≤ b'.size) (addressable' : offset' + c.size < Bytes.addressLimit)
    (same : ∀ i < c.size, b.getPadded (offset + i) = b'.getPadded (offset' + i))
    (read : c.read e b offset = .ok x) : c.read e b' offset' = .ok x := by
  obtain ⟨v, total⟩ := laid.reads e b offset fits addressable
  obtain rfl := Except.ok.inj (total.symm.trans read)
  refine (laid.read_iff fits' addressable').mpr fun p mem => ?_
  refine Part.holds_congr (fun i covers => ?_) ((laid.read_iff fits addressable).mp read p mem)
  have inside := laid.tiles.inside mem covers
  exact same i (by omega)

theorem Laid.lawful (laid : Laid c back parts) : Lawful c back where
  same_bytes {e b b' offset offset'} h := by
    have fits := h.fits
    have fits' := h.fits'
    have addressable := h.addressable
    have addressable' := h.addressable'
    obtain ⟨v, read⟩ := laid.reads e b offset fits (by omega)
    rw [read, laid.read_congr fits (by omega) fits' (by omega) h.same read]
  write_read e offset v b fits addressable := by
    obtain ⟨b', done, rewritten⟩ := laid.writes e offset v fits (by omega)
    have size_eq := rewritten.size_eq
    refine ⟨b', ⟨done, size_eq, fun i outside => ?_⟩, ?_⟩
    · apply rewritten.kept
      intro p mem _ covers
      have inside := laid.tiles.inside mem covers
      omega
    · exact (laid.read_iff (by omega) (by omega)).mpr rewritten.holds

theorem Laid.encode_rewrites (laid : Laid c back parts)
    (addressable : c.size < Bytes.addressLimit) (e : ByteOrder) (v : α) :
    Rewritten parts e 0 v (Bytes.zeros c.size) (c.encode e v) := by
  have size_eq := Bytes.size_zeros c.size
  obtain ⟨b', done, rewritten⟩ := laid.writes e 0 v (b := Bytes.zeros c.size) (by omega) (by omega)
  have same : c.encode e v = b' := by rw [encode, done]
  rwa [same]

theorem Laid.size_encode (laid : Laid c back parts) (addressable : c.size < Bytes.addressLimit)
    (e : ByteOrder) (v : α) : (c.encode e v).size = c.size :=
  (laid.encode_rewrites addressable e v).size_eq.trans (Bytes.size_zeros _)

/-- The record of a value has the bytes of every record that holds it, and zeros for padding. -/
theorem Laid.encode_of_holds (laid : Laid c back parts) (addressable : c.size < Bytes.addressLimit)
    {gaps : List Nat} (gaps_eq : Gaps parts gaps) {e : ByteOrder} {b : Bytes} {offset : Nat} {v : α}
    (holds : ∀ p ∈ parts, p.Holds e b offset v) {i : Nat} (inside : i < c.size) :
    (c.encode e v).getPadded i = if i ∈ gaps then 0 else b.getPadded (offset + i) := by
  have rewritten := laid.encode_rewrites addressable e v
  obtain ⟨p, mem, covers⟩ := laid.tiles.covered (Nat.zero_le i) inside
  by_cases padding : p.isPadding = true
  · have zero := rewritten.kept i (laid.tiles.outside_of_padding mem padding covers)
    rw [if_pos ((gaps_eq i).mpr ⟨p, mem, padding, covers⟩), zero, Bytes.getPadded_zeros]
  · have meant : p.isPadding = false := by simpa using padding
    have same := Part.byte_eq_of_holds meant (rewritten.holds p mem) (holds p mem) covers
    rw [Nat.zero_add] at same
    rw [if_neg, same]
    intro gap
    obtain ⟨q, mem', padding', covers'⟩ := (gaps_eq i).mp gap
    obtain rfl := laid.tiles.unique mem mem' covers covers'
    exact padding padding'

/-- Where the record of a value lies, the value is held. -/
theorem Laid.holds_of_encode (laid : Laid c back parts) (addressable : c.size < Bytes.addressLimit)
    {e : ByteOrder} {b : Bytes} {offset : Nat} {v : α}
    (same : ∀ i < c.size, b.getPadded (offset + i) = (c.encode e v).getPadded i) :
    ∀ p ∈ parts, p.Holds e b offset v := by
  intro p mem
  refine Part.holds_congr (fun i covers => ?_) ((laid.encode_rewrites addressable e v).holds p mem)
  have inside := laid.tiles.inside mem covers
  rw [Nat.zero_add, same i (by omega)]

theorem Laid.encode_eq_extract (laid : Laid c back parts)
    (addressable : c.size < Bytes.addressLimit)
    (solid : Gaps parts []) {e : ByteOrder} {b : Bytes} {v : α} (fits : c.size ≤ b.size)
    (holds : ∀ p ∈ parts, p.Holds e b 0 v) : c.encode e v = b.extract 0 c.size := by
  have size_eq := laid.size_encode addressable e v
  apply Bytes.ext_getPadded
  · rw [size_eq, Bytes.size_extract_of_le fits, Nat.sub_zero]
  · intro i inside
    rw [laid.encode_of_holds addressable solid holds (by omega), if_neg List.not_mem_nil,
      Bytes.getPadded_extract (by omega)]

/-- A record without padding replaces all that was there before it. -/
theorem Laid.apply_write (laid : Laid c back parts) (addressable : c.size < Bytes.addressLimit)
    (solid : Gaps parts []) (e : ByteOrder) (v : α) {b : Bytes} (fits : c.size ≤ b.size) :
    (c.write e 0 v).apply b = .ok (c.encode e v ++ b.drop c.size) := by
  have size_eq := laid.size_encode addressable e v
  obtain ⟨b', done, rewritten⟩ := laid.writes e 0 v (b := b) (by omega) (by omega)
  rw [apply_eq_ok, done]
  congr 1
  apply Bytes.ext_getPadded
  · rw [rewritten.size_eq, ByteArray.size_append, Bytes.size_drop]
    omega
  · intro i _
    rw [Bytes.getPadded_append, size_eq]
    rcases Nat.lt_or_ge i c.size with inside | behind
    · have same := laid.encode_of_holds addressable solid rewritten.holds inside
      rw [if_pos inside, same, if_neg List.not_mem_nil, Nat.zero_add]
    · rw [if_neg (by omega), Bytes.getPadded_drop, Nat.add_sub_cancel' behind]
      apply rewritten.kept
      intro p mem _ covers
      have inside := laid.tiles.inside mem covers
      omega

end

end Codec

end ObjectStore
