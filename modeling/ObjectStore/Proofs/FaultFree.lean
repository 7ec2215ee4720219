import ObjectStore.Proofs.CheckedContainer
import ObjectStore.Proofs.RoundTrip

/-
Nothing that is read makes an operation of the machine fail. Decoders, accessors, searches,
walks and the calls on a container come to their results or to one of their errors, the same as
without a machine. Buffers are taken to fill no more than half of all addresses.
-/
namespace ObjectStore

open Session ObjectStore.Tree

namespace Checked

/-- From these states no operation fails, and the session does what a plain one does. -/
def Follows (I : σ → Prop) (x' : Running σ α) (x : Session σ α) : Prop :=
  ∀ s, I s → Running.perform x' s = .ok (x.perform s)

theorem Follows.of_tracks {I : σ → Prop} {x' : Running σ α} {x : Session σ α} {P : α → Prop}
    (tracks : (Tracking.sessions I).Tracks x' x P) : Follows I x' x :=
  fun s start => (tracks s start).1

structure DecodersRun : Prop where
  word : ∀ e w b offset, Runs (word e w b offset) (ByteOrder.read e w b offset)
  header : ∀ e b, Runs (header e b) (ObjectHeader.parse e b)
  fletcher : ∀ e b, fletcher e b = .ok (Fletcher.checksum e b)
  checksum : ∀ e b, Runs (checksum e b) (Object.checksum e b)
  verifies : ∀ e b, verifies e b = .ok (Object.verifies e b)
  nodeHeader : ∀ e b, Runs (Reader.nodeHeader.decode e b) (NodeHeader.parse e b)
  footer : ∀ e b, Runs (Reader.footer.read e b 0) (Footer.parse e b)
  footerOfRoot : ∀ e b, Runs (footerOfRoot e b) (Footer.ofRoot e b)
  node : ∀ e b, Runs (node e b) (Node.parse e b)
  mapDescriptor : ∀ e b, Runs (mapDescriptor e b) (MapDescriptor.parse e b)
  versionKey : ∀ e b, Runs (versionKey e b) (VersionKey.parse e b)
  mapping : ∀ e b, Runs (mapping e b) (Mapping.parse e b)
  snapshot : ∀ e b, Runs (snapshot e b) (Snapshot.parse e b)
  ephemeralMapping : ∀ e b, Runs (ephemeralMapping e b) (EphemeralMapping.parse e b)
  capacity : ∀ len, capacity len = .ok (MapBlock.capacity len)
  mapBlock : ∀ e b, b.size < 2 ^ 63 → Runs (mapBlock e b) (MapBlock.parse e b)
  detectOrder : ∀ b, Runs (detectOrder b) (Superblock.detectOrder b)
  superblock : ∀ e b, Runs (superblock e b) (Superblock.parse e b)

theorem decoders_run : DecodersRun where
  word := word_runs
  header := header_runs
  fletcher := fletcher_eq
  checksum := checksum_runs
  verifies := verifies_eq
  nodeHeader := Reader.nodeHeader.decode_runs (by decide)
  footer e b := Reader.footer.read_runs e b 0 (by decide)
  footerOfRoot := footerOfRoot_runs
  node := node_runs
  mapDescriptor := mapDescriptor_runs
  versionKey := versionKey_runs
  mapping := mapping_runs
  snapshot := snapshot_runs
  ephemeralMapping := ephemeralMapping_runs
  capacity _ := Machine.div_eq (by decide)
  mapBlock e b held := mapBlock_runs e (Nat.lt_trans held (by decide))
  detectOrder := detectOrder_runs
  superblock := superblock_runs

structure NodeRuns (n : Node) : Prop where
  table : table n = .ok n.table
  keyArea : keyArea n = .ok n.keyArea
  valueArea : valueArea n = .ok n.valueArea
  slot : ∀ index, Runs (slot n index) (n.slot index)
  key : ∀ sizes index, Runs (key n sizes index) (n.key sizes index)
  value : ∀ sizes index, Runs (value n sizes index) (n.value sizes index)
  child : ∀ sizes index, Runs (child n sizes index) (n.child sizes index)
  locate : ∀ {τ : Type} {order : KeyOrder τ} (c : Comparer order) sizes target how,
    Runs (locate c n sizes target how) (n.locate sizes order target how)

theorem node_runs_all {n : Node} (decoded : n.Decoded) : NodeRuns n where
  table := table_eq decoded
  keyArea := keyArea_eq decoded
  valueArea := valueArea_eq decoded
  slot := slot_runs decoded
  key := key_runs decoded
  value := value_runs decoded
  child := child_runs decoded
  locate c := locate_runs c decoded

def unwatched (nav : Navigator (Session σ)) : Navigator (Running σ) :=
  ⟨fun reference => Running.plain (nav.source reference), nav.maxDepth⟩

def HandsOut (nav : Navigator (Session σ)) (P : Loaded → Prop) : Prop :=
  ∀ reference, Ensures (fun _ => True) (nav.source reference) P

theorem feeds_of_handsOut {nav : Navigator (Session σ)} {P : Loaded → Prop}
    (hands : HandsOut nav P) (decoded : ∀ loaded, P loaded → loaded.node.Decoded)
    (root : Reference) :
    Feeds (.sessions fun _ => True) (unwatched nav) nav root P where
  depth_eq := rfl
  source _ := Tracking.plain (hands _)
  decoded := decoded

theorem find_follows {nav : Navigator (Session σ)}
    (decoded : HandsOut nav fun loaded => loaded.node.Decoded) {τ : Type} {order : KeyOrder τ}
    (c : Comparer order) (root : Reference) (target : τ) (how : Match) :
    Follows (fun _ => True) (find (unwatched nav) c root target how)
      (nav.find order root target how) :=
  .of_tracks (find_tracks (feeds_of_handsOut decoded (fun _ known => known) root) c target how)

/-- Fewer blocks than this have fewer records in all than a word can count. -/
theorem walk_follows {nav : Navigator (Session σ)} {blocks : List BlockAddress}
    (few : blocks.length < 2 ^ 48)
    (hands : HandsOut nav fun loaded => loaded.node.Decoded ∧ loaded.address ∈ blocks)
    (root : Reference) (visit : Bytes → Bytes → Session σ Unit) :
    Follows (fun _ => True)
      (walk (unwatched nav) root fun key value => Running.plain (visit key value))
      (nav.walk root visit) := by
  have feeds := feeds_of_handsOut hands (fun _ known => known.1) root
  have visits : ∀ key value, (Tracking.sessions fun _ : σ => True).Tracks
      (Running.plain (visit key value)) (visit key value) fun _ => True :=
    fun key value => Tracking.plain fun _ _ => ⟨trivial, fun _ _ => trivial⟩
  refine .of_tracks (walk_tracks feeds visits (fun _ known => known.2)
    (fun _ known => Nat.le_of_lt (Node.keyCount_lt known.1)) ?_)
  omega

end Checked

def Container.OpenedOn (source : BlockSource (Except StoreError)) (c : Container) : Prop :=
  ∃ address options memory later,
    (Container.openAt source.remembered address options).perform memory = (.ok c, later)

/-- The memories that opening containers on a source and calling them leads to. Tree nodes are read
for physical references alone, so that each takes up one block: the nodes of an image then have
fewer records than a word can count. Nodes of several blocks may overlap, and have more. -/
def Memory.InUse (source : BlockSource (Except StoreError)) : Memory → Prop :=
  Memory.Reached source (fun r => ∃ c : Container, c.OpenedOn source ∧ c.resolver = r)
    fun reference => ∃ block, reference = .physical block

namespace Checked

structure CallsRun (source : BlockSource (Except StoreError))
    (disk : BlockSource (Running Memory)) (c : Container) : Prop where
  blockAddress : ∀ chain, c.resolver.checkpoint = some chain → ∀ i,
    blockAddress chain i = .ok (MapChain.blockAddress chain i)
  resolve : ∀ reference, Follows (Memory.InUse source) (resolve disk c.resolver reference)
    (c.resolver.resolve reference)
  lookupMapping : ∀ oid xid, Follows (Memory.InUse source) (lookupMapping disk c.resolver oid xid)
    (c.resolver.lookupMapping oid xid)
  volumes : Follows (Memory.InUse source) (volumes disk c) c.volumes
  checkpointMappings : Follows (Memory.InUse source) (checkpointMappings disk c)
    c.checkpointMappings
  latestCheckpoint : Follows (Memory.InUse source) (latestCheckpoint disk c) c.latestCheckpoint
  snapshots : ∀ map, Follows (Memory.InUse source) (snapshots map (readNode disk c.resolver))
    (ObjectMap.snapshots map c.resolver.readNode)

section

variable {image : Bytes} {size : BlockSize} {source : BlockSource (Except StoreError)}

def diskOf (image : Bytes) (size : BlockSize) (source : BlockSource (Except StoreError)) :
    BlockSource (Running Memory) :=
  mount (blocksOf image size source.blockCount)

theorem diskOf_mirrors (held : image.size < 2 ^ 63)
    (made : BlockSource.ofBytes image size = .ok source) :
    Mirrors (reading image size) image size (diskOf image size source) source.remembered :=
  mount_mirrors held made (blocksOf_serves (Nat.lt_trans held (by decide)) made)

theorem equips_of_opened (held : image.size < 2 ^ 63)
    (made : BlockSource.ofBytes image size = .ok source) {c : Container}
    (opened : c.OpenedOn source) :
    Equips image size (diskOf image size source) c.resolver := by
  obtain ⟨address, options, memory, later, run⟩ := opened
  have from_block := Container.opened_of_openAt run
  obtain ⟨chain, bound, chained⟩ := from_block.chained
  refine ⟨?_, fun own same => ?_⟩
  · rw [from_block.source_eq]
    exact diskOf_mirrors held made
  · rw [chained] at same
    cases same
    exact MapChain.ring_nonempty bound

/-- A cache in use has nothing but nodes of one block. -/
theorem single_of_inUse (held : image.size < 2 ^ 63)
    (made : BlockSource.ofBytes image size = .ok source) {memory : Memory}
    (used : memory.InUse source) : memory.Holds (Single image size) := by
  have equips : ∀ {c : Container}, c.OpenedOn source →
      Equips image size (diskOf image size source) c.resolver := equips_of_opened held made
  refine Memory.Reached.holds made ⟨?_, ?_, ?_, fun block => ⟨block, rfl⟩, ?_⟩ used
  · rintro r ⟨c, ⟨address, options, memory, later, run⟩, rfl⟩
    exact (Container.opened_of_openAt run).source_eq
  · rintro r ⟨c, opened, rfl⟩ oid xid memory holds
    exact (lookupMapping_tracks (equips opened) oid xid memory holds).2
  · rintro r ⟨c, opened, rfl⟩ reference ⟨block, rfl⟩ memory holds
    exact ⟨(readNode_tracks (equips opened) block memory holds).2.1, fun _ _ => trivial⟩
  · rintro root ⟨block, rfl⟩ oid
    exact ⟨oid, rfl⟩

theorem Follows.of_reading (held : image.size < 2 ^ 63)
    (made : BlockSource.ofBytes image size = .ok source) {x' : Running Memory α} {x : Reading α}
    {P : α → Prop} (tracks : (reading image size).Tracks x' x P) :
    Follows (Memory.InUse source) x' x :=
  fun _ used => (tracks _ (single_of_inUse held made used)).1

theorem calls_run (held : image.size < 2 ^ 63)
    (made : BlockSource.ofBytes image size = .ok source) {c : Container}
    (opened : c.OpenedOn source) : CallsRun source (diskOf image size source) c := by
  have equips := equips_of_opened held made opened
  refine ⟨fun chain bound => ?_, fun reference => ?_, fun oid xid => ?_, ?_, ?_, ?_,
    fun map => ?_⟩
  · exact blockAddress_eq (equips.ring chain bound)
  · exact .of_reading held made (resolve_object_tracks equips reference)
  · exact .of_reading held made (lookupMapping_tracks equips oid xid)
  · exact .of_reading held made (volumes_tracks equips)
  · exact .of_reading held made (checkpointMappings_tracks equips)
  · exact .of_reading held made (latestCheckpoint_tracks equips)
  · exact .of_reading held made (snapshots_tracks held (readNode_tracks equips) map)

structure OpeningRuns (image : Bytes) (size : BlockSize) : Prop where
  fresh : ∀ options : ResolverOptions, options.cacheCapacity < 2 ^ 64 →
    fresh options = .ok (.fresh options)
  refused : ∀ e, BlockSource.ofBytes image size = .error e →
    (imageSource image size).run = .ok (.error e)
  made : ∀ source, BlockSource.ofBytes image size = .ok source →
    (imageSource image size).run = .ok (.ok (blocksOf image size source.blockCount))
  openAt : ∀ source, BlockSource.ofBytes image size = .ok source → ∀ address options,
    Follows (Memory.InUse source)
      (openAt (diskOf image size source) source.remembered address options)
      (Container.openAt source.remembered address options)

theorem opening_runs (some_bytes : 0 < size.toNat) (held : image.size < 2 ^ 63) :
    OpeningRuns image size where
  fresh _ fits := fresh_eq fits
  refused _ refused := imageSource_refused some_bytes refused
  made _ made := imageSource_opened some_bytes made
  openAt _ made address options :=
    .of_reading held made (openAt_tracks (diskOf_mirrors held made) address options)

end

/-- No operation fails in a decoder, in an accessor of a node, in a search over any source of
nodes, in a walk over one of fewer than 2^48 blocks, in opening an image or in a call on the
container that was opened. -/
theorem no_operation_fails :
    DecodersRun ∧
    (∀ n : Node, n.Decoded → NodeRuns n) ∧
    (∀ {σ τ : Type} (nav : Navigator (Session σ)) {order : KeyOrder τ} (c : Comparer order)
      (root : Reference) (target : τ) (how : Match),
      HandsOut nav (fun loaded => loaded.node.Decoded) →
      Follows (fun _ => True) (find (unwatched nav) c root target how)
        (nav.find order root target how)) ∧
    (∀ {σ : Type} (nav : Navigator (Session σ)) (blocks : List BlockAddress) (root : Reference)
      (visit : Bytes → Bytes → Session σ Unit), blocks.length < 2 ^ 48 →
      HandsOut nav (fun loaded => loaded.node.Decoded ∧ loaded.address ∈ blocks) →
      Follows (fun _ => True)
        (walk (unwatched nav) root fun key value => Running.plain (visit key value))
        (nav.walk root visit)) ∧
    ∀ (image : Bytes) (word : UInt32) (size : BlockSize), image.size < 2 ^ 63 →
      BlockSize.ofWord word = .ok size →
      OpeningRuns image size ∧
      ∀ source, BlockSource.ofBytes image size = .ok source → ∀ c : Container,
        c.OpenedOn source → CallsRun source (diskOf image size source) c := by
  refine ⟨decoders_run, fun _ => node_runs_all, fun nav _ c root target how decoded => ?_,
    fun nav blocks root visit few hands => ?_, fun image word size held legal => ⟨?_, ?_⟩⟩
  · exact find_follows decoded c root target how
  · exact walk_follows few hands root visit
  · obtain ⟨rfl, listed⟩ := BlockSize.ofWord_eq_ok legal
    have some_bytes : 0 < word.toNat :=
      Nat.pos_of_ne_zero fun zero => ne_zero_of_legal listed (UInt32.toNat_inj.mp zero)
    exact opening_runs some_bytes held
  · exact fun source made c opened => calls_run held made opened

end Checked

namespace ContainerDraft

theorem size_contents {d : ContainerDraft} {p : ContainerParts} {built : ContainerImage}
    {contents : Bytes} {size : BlockSize} {source : BlockSource (Except StoreError)}
    (makes : d.Makes p built) (legal : d.blockSize ∈ BlockSize.legal)
    (shown : built.image.toSource = .ok source) (found : Found d p contents size source) :
    contents.size = d.blockCount.toNat * d.size := by
  have limit : Bytes.addressLimit = 2 ^ 64 := rfl
  have addressable := found.addressable
  have quotient := Nat.div_le_self contents.size size.toNat
  have parts := Nat.div_add_mod contents.size size.toNat
  obtain ⟨whole, -, counted, -, -⟩ := BlockSource.ofBytes_eq_ok found.opened
  have count_eq : source.blockCount.toNat = contents.size / size.toNat := by
    rw [counted]
    exact Nat.mod_eq_of_lt (by omega)
  have same : source.blockCount = d.blockCount := by
    rw [Image.blockCount_of_toSource (filled_of_build makes legal) shown,
      (image_of_build makes legal).1]
  rw [whole, Nat.add_zero, ← count_eq, same, Nat.mul_comm] at parts
  rw [← parts, found.size_same]

end ContainerDraft

namespace Checked

/-- A container that is opened on a machine and asked for an object and for its checkpoint. -/
theorem no_operation_fails_withdrawn : ∃ contents size source c later,
    BlockSource.ofBytes contents size = .ok source ∧
      (openAt (diskOf contents size source) source.remembered 0 .standard).perform
        (.fresh .standard) = .ok (.ok c, later) ∧
      (resolve (diskOf contents size source) c.resolver (.virtual 1024 7)).perform later
        = .ok ((c.resolver.resolve (.virtual 1024 7)).perform later) ∧
      (latestCheckpoint (diskOf contents size source) c).perform later
        = .ok (c.latestCheckpoint.perform later) := by
  obtain ⟨p, built, contents, size, source, c, later, run, shown, makes, found, bound, opens, -⟩ :=
    ContainerDraft.withdrawn_modest.opens
  have legal := ContainerDraft.withdrawn_modest.legal
  have held : contents.size < 2 ^ 63 := by
    rw [ContainerDraft.size_contents makes legal shown found]
    decide
  have sized : BlockSize.ofWord size.bytes = .ok size := by
    rw [BlockSize.ofWord, if_pos (by rw [found.size_eq]; exact legal)]
  obtain ⟨-, -, -, -, containers⟩ := no_operation_fails
  obtain ⟨opening, calls⟩ := containers contents size.bytes size held sized
  have opened : c.OpenedOn source := ⟨0, .standard, .fresh .standard, later, opens⟩
  have used : later.InUse source := by
    have used : Memory.InUse source ((Container.openAt source.remembered 0 .standard).perform
      (.fresh .standard)).2 := .openAt 0 .standard (.fresh .standard)
    rwa [opens] at used
  have called := calls source found.opened c opened
  refine ⟨contents, size, source, c, later, found.opened, ?_, ?_, ?_⟩
  · rw [opening.openAt source found.opened 0 .standard _ (.fresh .standard), opens]
  · exact called.resolve _ later used
  · exact called.latestCheckpoint later used

end Checked

end ObjectStore
