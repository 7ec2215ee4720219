import ObjectStore.Proofs.BuiltReads
import ObjectStore.Proofs.DeadEnds
import ObjectStore.Proofs.LeafMaps
import ObjectStore.Proofs.MapLookups
import ObjectStore.Proofs.MappingOrigins
import ObjectStore.Proofs.Versions

/-
What stands behind a report that something in a container is not found. The image itself never
makes one. An object is not found where no mapping for it is live; a search or a walk of a tree
passes that on from a pointer to such an object, just as it reports a key that is not there.
-/
namespace ObjectStore

namespace Session

/-- Whatever a run fails with, it does not report that something is not found. -/
def Finds (x : Session σ α) : Prop :=
  ∀ s e, (x.perform s).1 = .error e → ¬e.isNotFound = true

variable {σ α β : Type}

theorem finds_pure (a : α) : Finds (pure a : Session σ α) :=
  fun _ _ failed => nomatch failed

theorem finds_throw {e : StoreError} (found : ¬e.isNotFound = true) :
    Finds (throw e : Session σ α) := by
  intro _ _ failed
  cases failed
  exact found

theorem Finds.bind {x : Session σ α} {f : α → Session σ β} (first : Finds x)
    (next : ∀ a, Finds (f a)) : Finds (x >>= f) := by
  intro s e failed
  rw [perform_bind] at failed
  rcases run : x.perform s with ⟨e' | a, s'⟩
  · rw [run] at failed
    cases failed
    exact first s e (by rw [run])
  · rw [run] at failed
    exact next a s' e failed

theorem finds_decodedAt (block : BlockAddress) (result : Except DecodeError α) :
    Finds (decodedAt block result : Session σ α) := by
  cases result with
  | ok a => exact finds_pure a
  | error d => exact finds_throw (d.not_absent block)

theorem finds_checked {c : Prop} [Decidable c] {e : StoreError} {f : α → Session σ β}
    {k : Session σ β} (found : ¬e.isNotFound = true) (rest : Finds k) :
    Finds (if c then throw e >>= f else k) := by
  by_cases h : c
  · rw [if_pos h]
    intro s e' failed
    have thrown : (throw e : Session σ α).perform s = (.error e, s) := rfl
    rw [bind_of_error thrown] at failed
    cases failed
    exact found
  · rw [if_neg h]
    exact rest

/-- Where the rest reports nothing as not found, it is the first step that does. -/
theorem Finds.missed_before {x : Session σ α} {f : α → Session σ β} {s : σ} {e : StoreError}
    (rest : ∀ a, Finds (f a)) (failed : ((x >>= f).perform s).1 = .error e)
    (not_found : e.isNotFound = true) : (x.perform s).1 = .error e := by
  rw [perform_bind] at failed
  rcases run : x.perform s with ⟨e' | a, s'⟩
  · rw [run] at failed
    cases failed
    rfl
  · rw [run] at failed
    exact absurd not_found (rest a s' e failed)

end Session

open Session

section Image

variable {image : Bytes} {size : BlockSize} {e : ByteOrder}
  {source : BlockSource (Except StoreError)} {r : Resolver}

namespace BlockSource

/-- A place outside of the image is not a thing that is absent. -/
theorem found_of_read {blockCount : UInt64} {start : BlockAddress} {count len : Nat}
    {err : StoreError} (failed : (do
      (Device.ofBytes image).read (← offsetOf size blockCount start count) len) = .error err) :
    ¬err.isNotFound = true := by
  cases placed : offsetOf size blockCount start count with
  | error refused =>
    rw [placed] at failed
    cases failed
    unfold offsetOf at placed
    split at placed
    · split at placed <;> cases placed
      exact Bool.false_ne_true
    · cases placed
      exact Bool.false_ne_true
  | ok offset =>
    rw [placed, ok_bind, Device.ofBytes] at failed
    dsimp only at failed
    unfold Device.checkRange at failed
    split at failed
    · cases failed
      exact Bool.false_ne_true
    · split at failed <;> cases failed
      exact Bool.false_ne_true

theorem readBlock_found (opened : ofBytes image size = .ok source) {address : BlockAddress}
    {err : StoreError} (failed : source.readBlock address = .error err) :
    ¬err.isNotFound = true := by
  rw [(ofBytes_eq_ok opened).2.2.2.1] at failed
  exact found_of_read failed

theorem readRange_found (opened : ofBytes image size = .ok source) {start : BlockAddress}
    {count : UInt32} {err : StoreError} (failed : source.readRange start count = .error err) :
    ¬err.isNotFound = true := by
  rw [(ofBytes_eq_ok opened).2.2.2.2] at failed
  exact found_of_read failed

end BlockSource

theorem Tree.Descends.handed {handed : ObjectId → Tree.Loaded → Prop} {base : ObjectId}
    {nodes : List Tree.Loaded} {n : Tree.Loaded} (descends : Tree.Descends handed base nodes)
    (known : n ∈ nodes) : ∃ oid, handed oid n := by
  cases nodes with
  | nil => cases known
  | cons top below =>
    obtain ⟨at_top, pointed⟩ := descends top rfl
    rcases List.mem_cons.mp known with same | later
    · exact ⟨base, same ▸ at_top⟩
    · obtain ⟨_, -, _, oid, -, -, out, -⟩ := pointed n later
      exact ⟨oid, out⟩

/-- The record of a leaf among these nodes on which the search for a version settles: a version of
the object, not newer than asked for. Where the keys of the leaf ascend, it is the newest such. -/
structure Tree.VersionIn (e : ByteOrder) (target : VersionKey) (nodes : List Tree.Loaded)
    (found : Tree.Found) : Prop where
  settled : ∃ sizes leaf, Tree.Listed nodes sizes leaf found.index ∧
    leaf.node.locate sizes VersionKey.order target .versioned = .ok (some found.index) ∧
    Tree.Bears sizes leaf found.index (found.key, found.value) ∧
    ∀ records : List (Tree.Record VersionKey),
      leaf.node.HasKeys sizes Tree.versionKeys (records.map Tree.Record.key) →
      Tree.versionKeys.Ascending (records.map Tree.Record.key) →
      ∃ r ∈ records[found.index]?, Tree.KeyView.Newest records target r
  version : ∃ x ≤ target.xid, VersionKey.parse e found.key = .ok ⟨target.oid, x⟩

namespace Resolver

/-- What the lookup of a version comes upon in the tree of a map from this memory: what it asks
for, the nodes that it enters, and the record that it settles on or why it fails. -/
structure Consults (image : Bytes) (size : BlockSize) (e : ByteOrder) (r : Resolver)
    (memory : Memory) (map : ObjectMap) (target : VersionKey) (asks : List Tree.Ask)
    (entered : List Tree.Loaded) (result : Except StoreError Tree.Found) : Prop where
  run : ∃ later, ((map.navigator (r.readNodeWith noMap)).watched.find VersionKey.order
    map.treeRoot target .versioned).perform (memory, []) = (result, (later, asks))
  searched : Tree.Searched map.maxDepth VersionKey.order map.treeRoot target .versioned asks
    entered result
  descends : Tree.Descends (fun oid n => HandedOut image size e (.physical oid) n)
    map.descriptor.treeOid entered

/-- An object for which this memory finds no live mapping. The lookup of its version comes to a node
of the object map in which it settles on no entry, or it settles on a version that is deleted; or
the checkpoint does not list the object up to its last block. -/
inductive NoLiveMapping (image : Bytes) (size : BlockSize) (e : ByteOrder)
    (source : BlockSource (Except StoreError)) (r : Resolver) (memory : Memory) :
    Reference → Prop where
  | unmapped {oid : ObjectId} {xid : TransactionId} {map : ObjectMap} {asks : List Tree.Ask}
      {top : Tree.Loaded} {below : List Tree.Loaded} {err : StoreError}
      (bound : r.objectMap = some map)
      (consults : r.Consults image size e memory map ⟨oid, xid⟩ (⟨map.treeRoot, .ok top⟩ :: asks)
        (top :: below) (.error err))
      (ended : Tree.DeadEnd (fun _ _ => False) (Tree.Navigator.trunkOf map.treeRoot top)
        VersionKey.order ⟨oid, xid⟩ .versioned true top asks below err) :
      NoLiveMapping image size e source r memory (.virtual oid xid)
  | deleted {oid : ObjectId} {xid : TransactionId} {map : ObjectMap} {asks : List Tree.Ask}
      {entered : List Tree.Loaded} {found : Tree.Found} {mapping : Mapping}
      (bound : r.objectMap = some map)
      (consults : r.Consults image size e memory map ⟨oid, xid⟩ asks entered (.ok found))
      (version : Tree.VersionIn e ⟨oid, xid⟩ entered found)
      (parsed : Mapping.parse map.order found.value = .ok mapping)
      (gone : mapping.isDeleted = true) :
      NoLiveMapping image size e source r memory (.virtual oid xid)
  | unlisted {oid : ObjectId} {chain : MapChain} {blocks : List MapBlock}
      (bound : r.checkpoint = some chain) (complete : chain.Complete source blocks)
      (missing : ∀ mapping ∈ listed blocks, mapping.oid ≠ oid) :
      NoLiveMapping image size e source r memory (.ephemeral oid)

/-- A node that could not be read, in a run from this memory that has asked for these nodes, for the
reason that its object had no live mapping when it was asked for. -/
def Lost (image : Bytes) (size : BlockSize) (e : ByteOrder)
    (source : BlockSource (Except StoreError)) (r : Resolver) (memory : Memory)
    (asks : List Tree.Ask) (reference : Reference) (err : StoreError) : Prop :=
  ∃ earlier before later, r.navigator.Asked memory before earlier ∧
    earlier ++ [⟨reference, .error err⟩] <+: asks ∧
    (r.readNode reference).perform before = (.error err, later) ∧
    r.NoLiveMapping image size e source before reference

theorem finds_verify (order : ByteOrder) (b : Bytes) (block : BlockAddress) (what : String) :
    Finds (Object.verify order b block what : Reading Unit) := by
  unfold Object.verify
  split
  · exact finds_pure ()
  · exact finds_throw Bool.false_ne_true

theorem finds_checkIdentity (reference : Reference) (address : BlockAddress) (h : ObjectHeader) :
    Finds (checkIdentity reference address h) := by
  unfold checkIdentity
  split
  · exact finds_pure ()
  · exact finds_throw Bool.false_ne_true

theorem finds_placed (address : BlockAddress) (length : UInt32) :
    Finds (r.placed address length) :=
  finds_checked Bool.false_ne_true (finds_pure _)

section Reads

variable (opened : BlockSource.ofBytes image size = .ok source) (reads : r.Reads source e)

include opened reads

theorem finds_readPlaced (p : Placement) : Finds (r.readPlaced p) := by
  intro memory err failed
  unfold readPlaced at failed
  rw [reads.source_eq] at failed
  split at failed
  · rw [BlockSource.perform_remembered_block] at failed
    exact BlockSource.readBlock_found opened failed
  · rw [BlockSource.perform_remembered_range] at failed
    exact BlockSource.readRange_found opened failed

theorem finds_loadNode (reference : Reference) (p : Placement) :
    Finds (r.loadNode reference p) := by
  refine (finds_readPlaced opened reads p).bind fun b => ?_
  refine (finds_verify _ _ _ _).bind fun _ => (finds_decodedAt _ _).bind fun node => ?_
  exact (finds_checkIdentity _ _ _).bind fun _ => finds_checked Bool.false_ne_true (finds_pure node)

/-- A node is not found where its object has no place. -/
theorem missed_place {lookup : Lookup} {reference : Reference} {memory : Memory}
    {err : StoreError} (failed : ((r.readNodeWith lookup reference).perform memory).1 = .error err)
    (not_found : err.isNotFound = true) :
    ((r.place lookup reference).perform memory).1 = .error err := by
  refine Finds.missed_before (fun p => ?_) failed not_found
  refine Finds.bind (fun _ _ failed => nomatch failed) fun found => ?_
  cases found with
  | some node => exact (finds_checkIdentity _ _ _).bind fun _ => finds_pure _
  | none =>
    refine (finds_loadNode opened reads reference p).bind fun node => ?_
    exact Finds.bind (fun _ _ failed => nomatch failed) fun _ => finds_pure _

/-- The nodes of an object map are physical, so that none of them is lost. -/
theorem finds_mapNode (block : BlockAddress) : Finds (r.readNodeWith noMap (.physical block)) := by
  intro memory err failed not_found
  have place : Finds (r.place noMap (.physical block)) :=
    finds_checked Bool.false_ne_true (finds_pure _)
  exact place memory err (missed_place opened reads failed not_found) not_found

theorem missed_chain {chain : MapChain} {oid : ObjectId} {memory : Memory} {err : StoreError}
    (failed : ((chain.resolve r.source oid).perform memory).1 = .error err)
    (not_found : err.isNotFound = true) : ∃ blocks, chain.Complete source blocks ∧
      ∀ mapping ∈ listed blocks, mapping.oid ≠ oid := by
  rw [reads.source_eq, (MapChain.yields_resolve (I := fun _ : Memory => True)
    (fun _ _ _ => trivial) oid memory trivial).2] at failed
  obtain ⟨blocks, ending, (scanned : chain.Scanned source blocks ending)⟩ :=
    MapChain.scan_total chain source chain.maxBlocks.toNat 0
  cases err with
  | keyNotFound text =>
    rcases scanned.not_found failed with absent | ⟨_, _, address, _, unread⟩
    · exact ⟨blocks, absent⟩
    · exact absurd rfl (BlockSource.readBlock_found opened unread)
  | _ => cases not_found

/-- A lookup that gets as far as the object map comes to what its search there does. -/
theorem lookupMapping_consults {memory : Memory} (sound : memory.Sound image size e)
    (oid : ObjectId) (xid : TransactionId) :
    (∃ err, ((r.lookupMapping oid xid).perform memory).1 = .error err ∧ ¬err.isNotFound = true) ∨
      ∃ map asks entered result, r.objectMap = some map ∧
        r.Consults image size e memory map ⟨oid, xid⟩ asks entered result ∧
        ((r.lookupMapping oid xid).perform memory).1 = result >>= map.mappingIn := by
  by_cases reserved : isReserved oid = true
  · refine .inl ⟨.reservedId oid, ?_, Bool.false_ne_true⟩
    rw [lookupMapping, rejectReserved, if_pos reserved]
    rfl
  · cases bound : r.objectMap with
    | none =>
      refine .inl ⟨.unsupported "virtual object without an object map", ?_, Bool.false_ne_true⟩
      rw [lookupMapping, rejectReserved, if_neg reserved, bound]
      rfl
    | some map =>
      have loads : ∀ reference, Ensures (Memory.Sound image size e)
          ((map.navigator (r.readNodeWith noMap)).source reference) fun n =>
            ∀ oid, reference = map.treeRoot.sibling oid →
              HandedOut image size e (.physical oid) n := by
        intro reference
        refine (Resolver.ensures_handedOut reads opened
          (fun _ _ => ensures_throw _) reference).weaken ?_
        rintro n out oid rfl
        exact out
      have tree_eq : map.treeRoot.sibling map.descriptor.treeOid = map.treeRoot := rfl
      obtain ⟨later, asks, entered, result, run, watched, searched, descends⟩ :=
        Tree.Navigator.find_descends loads tree_eq VersionKey.order ⟨oid, xid⟩ .versioned sound
      refine .inr ⟨map, asks, entered, result, rfl, ⟨⟨later, watched⟩, searched, descends⟩, ?_⟩
      rw [← ObjectMap.resolve_after run, lookupMapping, rejectReserved, if_neg reserved, bound]
      rfl

/-- What a search asks for in the tree of a map it does not miss. -/
theorem Consults.misses_nothing {memory : Memory} {map : ObjectMap} {target : VersionKey}
    {asks : List Tree.Ask} {entered : List Tree.Loaded} {result : Except StoreError Tree.Found}
    (consults : r.Consults image size e memory map target asks entered result) :
    Tree.Misses (fun _ _ => False) map.treeRoot asks := by
  obtain ⟨later, run⟩ := consults.run
  have each : ∀ reference, Run (fun _ : Memory => True)
      ((map.navigator (r.readNodeWith noMap)).source reference) fun outcome =>
        ∀ oid err, reference = map.treeRoot.sibling oid → outcome = .error err →
          ¬err.isNotFound = true := by
    rintro reference memory -
    refine ⟨trivial, ?_⟩
    rintro oid err rfl failed
    exact finds_mapNode opened reads oid memory err failed
  intro oid err asked not_found
  have answered := ((Tree.Navigator.find_asked run).answered each trivial).2
  exact answered _ asked oid err rfl rfl not_found

omit opened reads in
theorem Consults.versionIn {memory : Memory} {map : ObjectMap} {target : VersionKey}
    {asks : List Tree.Ask} {entered : List Tree.Loaded} {found : Tree.Found}
    (consults : r.Consults image size e memory map target asks entered (.ok found)) :
    Tree.VersionIn e target entered found := by
  obtain ⟨top, first, leaf, known, is_leaf, rightmost, ended⟩ | ⟨-, _, failed⟩ :=
    consults.searched.ends
  · obtain ⟨-, located, bears⟩ := Tree.foundIn_eq_ok ended.symm
    have located : leaf.node.locate top.node.entrySizes VersionKey.order target .versioned
        = .ok (some found.index) := located
    have inside := (Tree.Node.locate_eq_some located).1
    obtain ⟨x, version, not_newer⟩ := versioned_key located bears.key_eq
    obtain ⟨oid, out⟩ := consults.descends.handed known
    obtain ⟨_, _, loaded⟩ := out.genuine
    rw [(node_of_parse loaded.parsed).2.1] at version
    refine ⟨⟨_, leaf, ⟨⟨top, first, rfl⟩, known, is_leaf, inside⟩, located, bears, ?_⟩,
      x, not_newer, version⟩
    intro records has ascending
    have place := located
    rw [Tree.Node.locate_of_keys has ascending target .versioned] at place
    have scan := Tree.versionKeys.place_eq_scan ascending target .versioned
    rw [Except.ok.inj place, Option.bind_some] at scan
    have listed : found.index < records.length := by
      rw [has.1, List.length_map] at inside
      exact inside
    rw [List.getElem?_eq_getElem listed] at scan
    exact ⟨records[found.index], List.getElem?_eq_getElem listed,
      Tree.KeyView.newest_of_scan ascending scan.symm⟩
  · cases failed

theorem missed_lookup {memory : Memory} (sound : memory.Sound image size e) {oid : ObjectId}
    {xid : TransactionId} {err : StoreError}
    (failed : ((r.lookupMapping oid xid).perform memory).1 = .error err)
    (not_found : err.isNotFound = true) :
    r.NoLiveMapping image size e source memory (.virtual oid xid) := by
  obtain ⟨other, same, found⟩ | ⟨map, asks, entered, result, bound, consults, same⟩ :=
    lookupMapping_consults opened reads sound oid xid
  · rw [same] at failed
    cases failed
    exact absurd not_found found
  · rw [same] at failed
    obtain failed | ⟨found, -, undecoded⟩ := bind_eq_error.mp failed
    · subst failed
      obtain ⟨-, no_root⟩ | ⟨top, more, below, rfl, rfl, ended⟩ :=
        consults.searched.deadEnd not_found (consults.misses_nothing opened reads)
      · exact no_root.elim
      · exact .unmapped bound consults ended
    · obtain ⟨d, rfl, -⟩ := ObjectMap.mappingIn_eq_error undecoded
      exact absurd not_found (d.not_absent _)

/-- An object has no place, and is reported as not found, where no mapping for it is live. -/
theorem missed_reference {memory : Memory} (sound : memory.Sound image size e)
    {reference : Reference} {err : StoreError}
    (failed : ((r.place r.lookupMapping reference).perform memory).1 = .error err)
    (not_found : err.isNotFound = true) :
    r.NoLiveMapping image size e source memory reference := by
  cases reference with
  | physical address =>
    have place : Finds (r.place r.lookupMapping (.physical address)) :=
      finds_checked Bool.false_ne_true (finds_pure _)
    exact absurd not_found (place memory err failed)
  | «virtual» oid xid =>
    rcases run : (r.lookupMapping oid xid).perform memory with ⟨other | mapping, later⟩
    · rw [place, bind_of_error run] at failed
      cases failed
      exact missed_lookup opened reads sound (congrArg Prod.fst run) not_found
    · rw [place, bind_of_ok run] at failed
      by_cases gone : mapping.isDeleted = true
      · obtain ⟨_, same, -⟩ | ⟨map, asks, entered, result, bound, consults, same⟩ :=
          lookupMapping_consults opened reads sound oid xid
        · rw [run] at same
          cases same
        · rw [run] at same
          obtain ⟨found, rfl, decoded⟩ := bind_eq_ok.mp same.symm
          exact .deleted bound consults consults.versionIn (ObjectMap.mappingIn_eq_ok decoded) gone
      · dsimp only at failed
        rw [if_neg gone] at failed
        refine absurd not_found ?_
        exact finds_checked (by exact Bool.false_ne_true)
          (finds_checked (by exact Bool.false_ne_true) (finds_placed _ _)) later err failed
  | ephemeral oid =>
    rw [place, rejectReserved] at failed
    split at failed
    · cases failed
      cases not_found
    · cases bound : r.checkpoint with
      | none =>
        rw [bound] at failed
        cases failed
        cases not_found
      | some chain =>
        rw [bound] at failed
        have missed := Finds.missed_before (fun _ => finds_placed _ _) failed not_found
        obtain ⟨blocks, complete, missing⟩ := missed_chain opened reads missed not_found
        exact .unlisted bound complete missing

/-- What a search or a walk from a reachable memory is handed, and what it is told is not found. -/
theorem asked_nodes {memory later : Memory} (reached : Reachable source e memory)
    {asks : List Tree.Ask} (asked : r.navigator.Asked memory later asks) (root : Reference) :
    Tree.Answered (fun oid n => HandedOut image size e (root.sibling oid) n) root asks ∧
      Tree.Misses (r.Lost image size e source memory asks) root asks := by
  have kept : ∀ reference, Ensures (Reachable source e) (r.navigator.source reference)
      fun _ => True :=
    fun reference before reached => ⟨reached.readNode reads reference, fun _ _ => trivial⟩
  have at_call : ∀ {ask : Tree.Ask}, ask ∈ asks → ∃ earlier before after,
      r.navigator.Asked memory before earlier ∧ earlier ++ [ask] <+: asks ∧
        before.Sound image size e ∧ (r.readNode ask.reference).perform before
          = (ask.outcome, after) := by
    intro ask mem
    obtain ⟨earlier, before, after, made, run, front⟩ := asked.at_call mem
    exact ⟨earlier, before, after, made, front,
      (made.answered kept reached).1.sound opened, run⟩
  constructor
  · intro oid n mem
    obtain ⟨_, before, after, -, -, sound, run⟩ := at_call mem
    exact (ensures_readNode reads opened _ before sound).2 n (congrArg Prod.fst run)
  · intro oid err mem not_found
    obtain ⟨earlier, before, after, made, front, sound, run⟩ := at_call mem
    have placeless := missed_place opened reads (congrArg Prod.fst run) not_found
    exact ⟨earlier, before, after, made, front, run,
      missed_reference opened reads sound placeless not_found⟩

/-- A search below a root that reports something as not found comes to a dead end. Either every
pointer on its way was read as a node, and it settles on no entry of the last one; or the last
pointer on its way is to an object that has no live mapping. A walk reports something as not found
at such a pointer, or where its visitor does. In a physical tree there are no such pointers. -/
theorem navigator_not_found {memory mid : Memory} (reached : Reachable source e memory)
    {root : Reference} {top : Tree.Loaded}
    (rooted : (r.navigator.rootNode root).perform memory = (.ok top, mid)) :
    (∀ (τ : Type) (order : Tree.KeyOrder τ) (target : τ) (how : Tree.Match) (err : StoreError),
      ((r.navigator.find order root target how).perform memory).1 = .error err →
      err.isNotFound = true →
      ∃ later asks below,
        (r.navigator.watched.find order root target how).perform (memory, [])
          = (.error err, (later, ⟨root, .ok top⟩ :: asks)) ∧
        Tree.Searched r.options.maxTreeDepth order root target how (⟨root, .ok top⟩ :: asks)
          (top :: below) (.error err) ∧
        Tree.Descends (fun oid n => HandedOut image size e (root.sibling oid) n) root.oid
          (top :: below) ∧
        Tree.DeadEnd (r.Lost image size e source memory (⟨root, .ok top⟩ :: asks))
          (Tree.Navigator.trunkOf root top) order target how true top asks below err) ∧
    (∀ (ρ : Type) (visit : Bytes → Bytes → Session ρ Unit) (own : ρ) (err : StoreError),
      ((r.navigator.walkWith root visit).perform (memory, own)).1 = .error err →
      err.isNotFound = true →
      ∃ later asks below records final,
        (r.navigator.watched.walkWith root visit).perform ((memory, []), own)
          = (.error err, ((later, asks), final)) ∧
        Tree.Walked r.options.maxTreeDepth visit root own asks (top :: below) records (.error err)
          final ∧
        Tree.Descends (fun oid n => HandedOut image size e (root.sibling oid) n) root.oid
          (top :: below) ∧
        Tree.BrokenOff (r.Lost image size e source memory asks) visit root asks (top :: below)
          err) ∧
    ∀ memory address, ¬r.NoLiveMapping image size e source memory (.physical address) := by
  refine ⟨fun τ order target how err failed not_found => ?_,
    fun ρ visit own err failed not_found => ?_, fun memory address => nofun⟩
  · obtain ⟨later, asks, entered, result, run, watched, searched, first⟩ :=
      Tree.Navigator.perform_find r.navigator order root target how memory
    rw [rooted] at first
    rw [run] at failed
    cases failed
    obtain ⟨answered, misses⟩ :=
      asked_nodes opened reads reached (Tree.Navigator.find_asked watched) root
    have descends := searched.descends root.sibling_self answered
    obtain ⟨rfl, -⟩ | ⟨top', more, below, rfl, rfl, ended⟩ := searched.deadEnd not_found misses
    · cases first
    · cases first
      exact ⟨later, more, below, watched, searched, descends, ended⟩
  · obtain ⟨later, asks, nodes, records, result, final, run, watched, walked, first⟩ :=
      Tree.Navigator.perform_walk r.navigator root visit memory own
    rw [rooted] at first
    rw [run] at failed
    cases failed
    obtain ⟨answered, misses⟩ :=
      asked_nodes opened reads reached (Tree.Navigator.walk_asked watched) root
    have descends := walked.descends root.sibling_self answered
    obtain ⟨below, rfl⟩ := List.head?_eq_some_iff.mp first
    obtain ⟨none_entered, -⟩ | ended := walked.brokenOff not_found misses
    · cases none_entered
    · exact ⟨later, asks, below, records, final, watched, walked, descends, ended⟩

end Reads

end Resolver

end Image

section Dangling

open MapChain (soleChain soleChain_address)

/-- The root of an ephemeral tree whose only pointer leads to the object 1025. -/
def danglingRoot : NodeDraft :=
  { NodeDraft.blank .little 4096 with
    object := ⟨0, 1024, 10, TypeWord.tree ||| TypeWord.ephemeralFlag, 0⟩
    level := 1
    root := true
    entries := [(wordBytes .little 5, wordBytes .little 1025)] }

def danglingMapping : EphemeralMapping :=
  ObjectDraft.ephemeralMapping 1024 TypeWord.tree 4096 2

def danglingImage (map root : Bytes) : Image := ⟨4096, 3, [(1, map), (2, root)]⟩

def danglingResolver (source : BlockSource (Except StoreError)) : Resolver :=
  (Resolver.ofSource source.remembered .little .uncached).withCheckpoint soleChain

structure Dangling (contents : Bytes) (size : BlockSize) (source : BlockSource (Except StoreError))
    (root : Bytes) (node : Tree.Node) : Prop where
  opened : BlockSource.ofBytes contents size = .ok source
  size_eq : size.bytes = 4096
  lists : ∃ block, soleChain.Scanned source [block] none ∧ block.mappings = [danglingMapping]
  stored : source.readBlock 2 = .ok root
  reads : danglingRoot.Reads root node

theorem danglingRoot_word : TypeWord.code danglingRoot.object.typeWord = TypeWord.tree ∧
    TypeWord.storage? danglingRoot.object.typeWord = some .ephemeral := by decide

theorem danglingRoot_builds : ∃ root node, danglingRoot.build = .ok root ∧
    danglingRoot.Reads root node := by
  obtain ⟨node, built, reads⟩ := NodeDraft.builds (d := danglingRoot) UInt16.zero_and (by decide)
    (fun _ _ _ => rfl) (by decide) fun _ => ⟨_, .inr ⟨rfl, rfl⟩⟩
  exact ⟨_, node, built, reads⟩

theorem danglingImage_reads : ∃ map root contents size source node,
    ObjectDraft.mapBlock .little 4096 10 0 1 true [danglingMapping] = .ok map ∧
      danglingRoot.build = .ok root ∧ (danglingImage map root).toSource = .ok source ∧
      Dangling contents size source root node := by
  obtain ⟨map, made⟩ : ∃ map,
      ObjectDraft.mapBlock .little 4096 10 0 1 true [danglingMapping] = .ok map :=
    ObjectDraft.mapBlock_succeeds (by decide) (by decide) (by decide) (by decide)
  obtain ⟨map_size, verified, block, parsed, -, -, is_last, mappings_eq, -⟩ :=
    ObjectDraft.mapBlock_reads (by decide) (by decide) made
  obtain ⟨root, node, built, reads⟩ := danglingRoot_builds
  have filled : (danglingImage map root).Filled := by
    intro at_block held mem
    rcases List.mem_cons.mp mem with same | mem
    · cases same
      exact map_size
    · cases List.mem_singleton.mp mem
      exact reads.size_eq
  obtain ⟨source, shown⟩ := Image.toSource_succeeds filled (by change (4096 : UInt32) ∈ _; decide)
    (by change 3 * 4096 < _; decide)
  obtain ⟨contents, size, held⟩ := Image.shown_of_toSource filled shown
  obtain ⟨-, read_map⟩ := held.blocks_eq 1 map rfl
    (by change 1 < 3; decide)
  obtain ⟨-, read_root⟩ := held.blocks_eq 2 root rfl
    (by change 2 < 3; decide)
  have scanned : soleChain.Scanned source [block] none :=
    .last (MapChain.readBlock_eq_ok.mpr
      ⟨1, map, ⟨soleChain_address _, read_map, verified, parsed⟩⟩) is_last
  exact ⟨map, root, contents, size, source, node, made, built, shown, held.opened, held.size_eq,
    ⟨block, scanned, mappings_eq⟩, read_root, reads⟩

variable {contents root : Bytes} {size : BlockSize} {source : BlockSource (Except StoreError)}
  {node : Tree.Node} (tree : Dangling contents size source root node)

include tree

theorem Dangling.resolve_eq (oid : ObjectId) : soleChain.resolve source oid
    = firstMapping [danglingMapping] oid (MapChain.absent oid) := by
  obtain ⟨block, scanned, mappings_eq⟩ := tree.lists
  rw [scanned.resolve_eq, listed, List.flatMap_singleton, mappings_eq]
  rfl

/-- Nothing is known of the object that the pointer leads to. -/
theorem Dangling.yields_child {I : Memory → Prop}
    (keeps : ∀ memory access, I memory → I (memory.note access)) :
    Yields I ((danglingResolver source).readNode (.ephemeral 1025))
      (.error (MapChain.absent 1025)) := by
  have missed : Yields I (soleChain.resolve source.remembered 1025)
      (soleChain.resolve source 1025) := MapChain.yields_resolve keeps 1025
  rw [tree.resolve_eq] at missed
  exact Yields.bind_error ((Resolver.yields_rejectReserved (by decide)).bind missed.bind_error)

theorem Dangling.places_root {I : Memory → Prop}
    (keeps : ∀ memory access, I memory → I (memory.note access)) :
    Yields I ((danglingResolver source).place (danglingResolver source).lookupMapping
      (.ephemeral 1024)) (.ok ⟨2, 1⟩) := by
  have reads : (danglingResolver source).Reads source .little := ⟨rfl, rfl⟩
  have found : Yields I (soleChain.resolve source.remembered 1024)
      (soleChain.resolve source 1024) := MapChain.yields_resolve keeps 1024
  rw [tree.resolve_eq] at found
  have placed := Resolver.yields_placed (I := I) tree.opened reads
    (by rw [BlockSize.toNat, tree.size_eq]; decide) 2
  rw [tree.size_eq] at placed
  exact (Resolver.yields_rejectReserved (by decide)).bind (found.bind placed)

theorem Dangling.root_intact : node.Intact .little root := by
  refine ⟨tree.reads.verified, tree.reads.parsed, .inl ?_⟩
  rw [tree.reads.object_eq]
  exact danglingRoot_word.1

theorem Dangling.rooted : ∃ mid, ((danglingResolver source).navigator.rootNode
    (.ephemeral 1024)).perform (.fresh .uncached) = (.ok ⟨2, node⟩, mid) := by
  have placed := tree.places_root (I := fun memory => memory.cache.shards = #[])
    (fun _ _ bare => bare) (.fresh .uncached) rfl
  rcases run : ((danglingResolver source).place (danglingResolver source).lookupMapping
    (.ephemeral 1024)).perform (.fresh .uncached) with ⟨result, memory⟩
  rw [run] at placed
  obtain ⟨bare, same⟩ := placed
  subst same
  have identified : identityFault? (.ephemeral 1024) node.object = none := by
    rw [tree.reads.object_eq, identityFault?, if_neg (fun other => other rfl),
      if_neg (fun other => other danglingRoot_word.2)]
  have loaded := Resolver.perform_readNodeAt_new (r := danglingResolver source) rfl
    (p := ⟨2, 1⟩) tree.stored tree.root_intact identified
    (congrArg Prod.fst (Cache.get_bare bare 2))
  obtain ⟨mid, asked⟩ : ∃ mid, ((danglingResolver source).navigator.source
      (.ephemeral 1024)).perform (.fresh .uncached) = (.ok ⟨2, node⟩, mid) :=
    ⟨_, (bind_of_ok run).trans loaded⟩
  have shallow : node.level ≤ (danglingResolver source).navigator.maxDepth := by
    rw [tree.reads.level_eq]
    change 1 ≤ Tree.standardDepth
    decide
  exact ⟨mid, Tree.Navigator.perform_rootNode_ok asked tree.reads.root_eq shallow⟩

/-- The pointer stands under the key 5. -/
theorem Dangling.hasKeys (sizes : Option Tree.EntrySizes) :
    node.HasKeys sizes Tree.wordKeys [5] := by
  refine ⟨tree.reads.keyCount_eq, fun i h => ?_⟩
  obtain rfl : i = 0 := Nat.lt_one_iff.mp h
  refine ⟨_, tree.reads.key_eq sizes trivial 0 (by decide), ?_⟩
  rw [tree.reads.order_eq]
  exact read64_wordBytes .little 5

theorem Dangling.locate_eq {target : UInt64} {place : Option Nat}
    (placed : Tree.wordKeys.place [5] target .floor = place) :
    node.locate node.entrySizes Tree.KeyOrder.word target .floor = .ok place := by
  rw [← placed]
  exact Tree.Node.locate_of_keys (tree.hasKeys _) (List.pairwise_singleton _ _) target .floor

theorem Dangling.child_eq (sizes : Option Tree.EntrySizes) : node.child sizes 0 = .ok 1025 := by
  have value := tree.reads.value_eq sizes trivial 0 (by decide)
  refine Tree.Node.child_of_value ?_ ?_
  · rw [tree.reads.level_eq]
    decide
  · rw [tree.reads.order_eq]
    exact value

theorem Dangling.level_eq : node.level.toNat = 1 := by
  rw [tree.reads.level_eq]
  rfl

theorem Dangling.find_eq {target : UInt64} (how : Tree.Match)
    {result : Except StoreError Tree.Found}
    (below : Yields (fun _ => True) ((danglingResolver source).navigator.findBelow
      (Tree.Navigator.trunkOf (.ephemeral 1024) ⟨2, node⟩) Tree.KeyOrder.word target how 1 [2] true
      ⟨2, node⟩) result) :
    (((danglingResolver source).navigator.find Tree.KeyOrder.word (.ephemeral 1024) target
      how).perform (.fresh .uncached)).1 = result := by
  obtain ⟨mid, rooted⟩ := tree.rooted
  rw [Tree.Navigator.find, bind_of_ok rooted, tree.level_eq]
  exact (below mid trivial).2

omit tree in
/-- What lies below the first key is not found, without any pointer being followed. -/
theorem navigator_not_found_below_first : ∃ contents size source top mid err,
    BlockSource.ofBytes contents size = .ok source ∧
      ((danglingResolver source).navigator.rootNode (.ephemeral 1024)).perform (.fresh .uncached)
        = (.ok top, mid) ∧
      (((danglingResolver source).navigator.find Tree.KeyOrder.word (.ephemeral 1024) 3
        .exact).perform (.fresh .uncached)).1 = .error err ∧ err.isNotFound = true ∧
      ∃ asks below, Tree.DeadEnd ((danglingResolver source).Lost contents size .little source
        (.fresh .uncached) (⟨.ephemeral 1024, .ok top⟩ :: asks))
        (Tree.Navigator.trunkOf (.ephemeral 1024) top) Tree.KeyOrder.word 3 .exact true top asks
        below err := by
  obtain ⟨map, root, contents, size, source, node, made, built, shown, tree⟩ := danglingImage_reads
  obtain ⟨mid, rooted⟩ := tree.rooted
  have none_below : Tree.wordKeys.place [5] 3 .floor = none := by decide
  have located := Tree.Navigator.yields_locateIn (I := fun _ : Memory => True)
    (Tree.Navigator.trunkOf (.ephemeral 1024) ⟨2, node⟩) ⟨2, node⟩ (tree.locate_eq none_below)
  have failed := tree.find_eq .exact located.bind_error
  obtain ⟨_, asks, below, -, -, -, ended⟩ :=
    (Resolver.navigator_not_found tree.opened ⟨rfl, rfl⟩ (.fresh .uncached) rooted).1 UInt64 _ 3
      .exact _ failed rfl
  exact ⟨contents, size, source, ⟨2, node⟩, mid, _, tree.opened, rooted, failed, rfl, asks, below,
    ended⟩

theorem Dangling.yields_step {σ : Type} {nav : Tree.Navigator (Session σ)} {err : StoreError}
    (misses : Yields (fun _ => True) (nav.source (.ephemeral 1025)) (.error err))
    (path : List BlockAddress) : Yields (fun _ => True) (nav.step
      (Tree.Navigator.trunkOf (.ephemeral 1024) ⟨2, node⟩) path ⟨2, node⟩ 0) (.error err) :=
  ((yields_decodedAt _ (tree.child_eq node.entrySizes)).bind misses.bind_error).bind_error

theorem Dangling.yields_find (how : Tree.Match) (path : List BlockAddress) (rightmost : Bool) :
    Yields (fun _ => True) ((danglingResolver source).navigator.findBelow
      (Tree.Navigator.trunkOf (.ephemeral 1024) ⟨2, node⟩) Tree.KeyOrder.word 7 how 1 path rightmost
      ⟨2, node⟩) (.error (MapChain.absent 1025)) := by
  have misses : Yields (fun _ => True) ((danglingResolver source).navigator.source
      (.ephemeral 1025)) (.error (MapChain.absent 1025)) :=
    tree.yields_child fun _ _ _ => trivial
  have first_below : Tree.wordKeys.place [5] 7 .floor = some 0 := by decide
  have located := Tree.Navigator.yields_locateIn (I := fun _ : Memory => True)
    (Tree.Navigator.trunkOf (.ephemeral 1024) ⟨2, node⟩) ⟨2, node⟩ (tree.locate_eq first_below)
  rw [Tree.Navigator.findBelow]
  exact located.bind (tree.yields_step misses path).bind_error

theorem Dangling.yields_walk {ρ : Type} (visit : Bytes → Bytes → Session ρ Unit) :
    Yields (fun _ => True) ((danglingResolver source).navigator.beside.walkBelow
      (Tree.Navigator.trunkOf (.ephemeral 1024) ⟨2, node⟩)
      (fun key value => onRight (visit key value)) 1 [] ⟨2, node⟩ ⟨[], 0⟩)
      (.error (MapChain.absent 1025)) := by
  have misses : Yields (fun _ : Memory × ρ => True)
      ((danglingResolver source).navigator.beside.source (.ephemeral 1025))
      (.error (MapChain.absent 1025)) :=
    fun s _ => tree.yields_child (I := fun _ => True) (fun _ _ _ => trivial) s.1 trivial
  rw [Tree.Navigator.walkBelow, Tree.Navigator.enter_new List.not_mem_nil, pure_bind,
    show node.keyCount = 1 from tree.reads.keyCount_eq]
  exact (tree.yields_step misses [2]).bind_error.bind_error

omit tree in
/-- A search that is led to an object that the checkpoint does not list, and a walk that comes to
it, report it as not found, though the pointer to it stands in an intact node. -/
theorem dangling_pointer_not_found : ∃ map root source top mid,
    ObjectDraft.mapBlock .little 4096 10 0 1 true [danglingMapping] = .ok map ∧
      danglingRoot.build = .ok root ∧ (danglingImage map root).toSource = .ok source ∧
      ((danglingResolver source).navigator.rootNode (.ephemeral 1024)).perform (.fresh .uncached)
        = (.ok top, mid) ∧
      top.node.locate top.node.entrySizes Tree.KeyOrder.word 7 .floor = .ok (some 0) ∧
      top.node.child top.node.entrySizes 0 = .ok 1025 ∧
      (MapChain.absent 1025).isNotFound = true ∧
      (∀ memory, (((danglingResolver source).readNode (.ephemeral 1025)).perform memory).1
        = .error (MapChain.absent 1025)) ∧
      (∀ how, (((danglingResolver source).navigator.find Tree.KeyOrder.word (.ephemeral 1024) 7
        how).perform (.fresh .uncached)).1 = .error (MapChain.absent 1025)) ∧
      ∀ visit : Bytes → Bytes → Session Unit Unit,
        (((danglingResolver source).navigator.walkWith (.ephemeral 1024) visit).perform
          (.fresh .uncached, ())).1 = .error (MapChain.absent 1025) := by
  obtain ⟨map, root, contents, size, source, node, made, built, shown, tree⟩ := danglingImage_reads
  obtain ⟨mid, rooted⟩ := tree.rooted
  refine ⟨map, root, source, ⟨2, node⟩, mid, made, built, shown, rooted,
    tree.locate_eq (by decide), tree.child_eq _, rfl, fun memory => ?_, fun how => ?_,
    fun visit => ?_⟩
  · exact (tree.yields_child (I := fun _ => True) (fun _ _ _ => trivial) memory trivial).2
  · exact tree.find_eq how (tree.yields_find how [2] true)
  · rw [Tree.Navigator.walkWith, Tree.Navigator.walk,
      bind_of_ok (Tree.Navigator.perform_beside_rootNode rooted ()), tree.level_eq]
    exact ((tree.yields_walk visit).bind_error (mid, ()) trivial).2

end Dangling

end ObjectStore
