import ObjectStore.Proofs.CheckedResolver
import ObjectStore.Proofs.Opening

/-
Containers on a machine. The source is taken twice: its blocks are read on the machine, and the
container that is opened keeps it as it is.
-/
namespace ObjectStore.Checked

open Session ObjectStore.Tree

section

variable {m : Type → Type} [Monad m] [MonadExceptOf StoreError m] [MonadLiftT Machine m]

def orderOf (options : ResolverOptions) (block : Bytes) (address : BlockAddress) : m ByteOrder :=
  match options.order with
  | some order => pure order
  | none => decodedAt address (detectOrder block)

end

section

variable (disk : BlockSource (Running Memory))

def bindObjectMap (r : Resolver) (address : BlockAddress) : Running Memory Resolver := do
  let object ← resolve disk r (.physical address)
  let d ← decodedAt address (mapDescriptor r.order object.bytes)
  return r.withObjectMap (← ofExcept (ObjectMap.ofDescriptor address r.order d))

def openAt (source : BlockSource Reading) (address : BlockAddress) (options : ResolverOptions) :
    Running Memory Container := do
  let block ← disk.readBlock address
  let order ← orderOf options block address
  verify order block address "container superblock"
  let s ← decodedAt address (superblock order block)
  if s.blockSize ≠ disk.blockSize then
    throw (.format (s!"superblock block size {s.blockSize}" ++
      s!" does not match source block size {disk.blockSize}"))
  let chain ← ofExcept (MapChain.ofSuperblock s order options.maxMapBlocks)
  let r := (Resolver.ofSource source order options).withCheckpoint chain
  let r ← if s.objectMap = 0 then pure r else bindObjectMap disk r s.objectMap
  return ⟨address, s, r⟩

variable (c : Container)

def candidateAt (address : BlockAddress) : Running Memory (Option Candidate) := do
  let front ← disk.readBytes address 0 ObjectHeader.size.toUInt32
  match ← (header c.order front).run with
  | .error _ => return none
  | .ok header =>
    if header.typeCode ≠ TypeWord.containerSuperblock then return none
    let block ← disk.readBlock address
    let sound ← verifies c.order block
    if !sound then return none
    match ← (superblock c.order block).run with
    | .error _ => return none
    | .ok s =>
      if s.blockSize ≠ c.superblock.blockSize then return none
      return some ⟨address, s⟩

def latestFrom (slot : UInt32) (best : Option Candidate) :
    Nat → Running Memory (Option Candidate)
  | 0 => return best
  | left + 1 => do
      let place ← descBlock c.superblock slot
      let next ← Machine.add 32 slot.toNat 1
      match place with
      | none => latestFrom next.toUInt32 best left
      | some address =>
        match ← candidateAt disk c address with
        | none => latestFrom next.toUInt32 best left
        | some found => latestFrom next.toUInt32 (some (Container.newer best found)) left

def latestCheckpoint : Running Memory Candidate := do
  match ← latestFrom disk c 0 none c.superblock.descBlocks.toNat with
  | some best => return best
  | none =>
    throw (.corrupt c.superblock.descBase
      "no valid superblock in the checkpoint descriptor area")

def checkpointMappings : Running Memory (List EphemeralMapping) :=
  match c.resolver.checkpoint with
  | some chain => mappingsFrom chain disk 0 chain.maxBlocks.toNat
  | none => return []

def volume (slot : Nat) : Running Memory ResolvedObject := do
  match c.superblock.volumeOid slot with
  | none => throw (.keyNotFound s!"volume slot {slot} is empty")
  | some oid =>
    let object ← resolve disk c.resolver (.virtual oid c.xid)
    if object.header.typeCode ≠ TypeWord.volumeSuperblock then
      throw (.corrupt object.address
        s!"volume {idText oid} is a {object.header.typeName} object")
    let magic ← decodedAt object.address
      (Reader.word32.read c.order object.bytes ObjectHeader.size)
    if magic ≠ volumeMagic then
      throw (.format (s!"volume {idText oid} has magic {hexText magic.toNat}," ++
        s!" expected {hexText volumeMagic.toNat}"))
    return object

def volumes : Running Memory (List ResolvedObject) :=
  c.superblock.usedSlots.mapM (volume disk c)

end

variable {image : Bytes} {size : BlockSize} {disk : BlockSource (Running Memory)}
  {source : BlockSource Reading} {c : Container}

theorem orderOf_tracks {m' m : Type → Type} [Monad m'] [MonadExceptOf StoreError m']
    [MonadLiftT Machine m'] [Monad m] [MonadExceptOf StoreError m] (F : Tracking StoreError m' m)
    (options : ResolverOptions) (block : Bytes) (address : BlockAddress) :
    F.Tracks (orderOf options block address)
      (ofExcept (Container.orderOf options block address)) fun _ => True := by
  unfold orderOf Container.orderOf
  cases options.order with
  | some order => exact F.done trivial
  | none =>
    have same : (ofExcept (ObjectStore.decodedAt address (Superblock.detectOrder block)) : m _)
        = ObjectStore.decodedAt address (Superblock.detectOrder block) := by
      cases Superblock.detectOrder block <;> rfl
    rw [same]
    exact F.weaken (decodedAt_tracks F address (detectOrder_runs block)) fun _ _ => trivial

theorem bindObjectMap_tracks {r : Resolver} (equips : Equips image size disk r)
    (address : BlockAddress) :
    (reading image size).Tracks (bindObjectMap disk r address)
      (Container.bindObjectMap r address) fun _ => True := by
  let F := reading image size
  refine F.bind (resolve_object_tracks equips _) fun object _ => ?_
  refine F.bind (decodedAt_tracks F address (mapDescriptor_runs _ _)) fun d _ => ?_
  exact F.bind (F.ofExcept _) fun map _ => F.done trivial

theorem openAt_tracks (mirrors : Mirrors (reading image size) image size disk source)
    (address : BlockAddress) (options : ResolverOptions) :
    (reading image size).Tracks (openAt disk source address options)
      (Container.openAt source address options) fun _ => True := by
  let F := reading image size
  refine F.bind (mirrors.readBlock address) fun block _ => ?_
  refine F.bind (orderOf_tracks F options block address) fun order _ => ?_
  refine F.bind (verify_tracks F order block address _) fun _ _ => ?_
  refine F.bind (decodedAt_tracks F address (superblock_runs order block)) fun s _ => ?_
  rw [mirrors.blockSize_eq]
  refine F.checked fun _ => ?_
  refine F.bind (F.ofExcept _) fun chain bound => ?_
  have equips : Equips image size disk
      ((Resolver.ofSource source order options).withCheckpoint chain) := by
    refine ⟨mirrors, fun own same => ?_⟩
    cases same
    exact MapChain.ring_nonempty bound
  refine F.branch (fun _ => ?_) fun _ => ?_
  · have unbound : F.Tracks (pure ((Resolver.ofSource source order options).withCheckpoint chain))
        (pure ((Resolver.ofSource source order options).withCheckpoint chain)) fun _ => True :=
      F.done trivial
    exact F.bind unbound fun r _ => F.done trivial
  · exact F.bind (bindObjectMap_tracks equips s.objectMap) fun r _ => F.done trivial

theorem candidateAt_tracks (equips : Equips image size disk c.resolver)
    (address : BlockAddress) :
    (reading image size).Tracks (candidateAt disk c address) (c.candidateAt address)
      fun _ => True := by
  let F := reading image size
  refine F.bind (equips.mirrors.readBytes address 0 _) fun front _ => ?_
  refine F.carried (header_runs c.order front) ?_
  cases ObjectHeader.parse c.order front with
  | error _ => exact F.done trivial
  | ok header =>
    refine F.branch (fun _ => F.done trivial) fun _ => ?_
    refine F.bind (equips.mirrors.readBlock address) fun block _ => ?_
    refine F.carried (verifies_eq c.order block) ?_
    refine F.branch (fun _ => F.done trivial) fun _ => ?_
    refine F.carried (superblock_runs c.order block) ?_
    cases Superblock.parse c.order block with
    | error _ => exact F.done trivial
    | ok s => exact F.branch (fun _ => F.done trivial) fun _ => F.done trivial

theorem latestFrom_tracks (equips : Equips image size disk c.resolver) (left : Nat)
    (slot : UInt32) (best : Option Candidate) (fits : slot.toNat + left < 2 ^ 32) :
    (reading image size).Tracks (latestFrom disk c slot best left) (c.latestFrom slot best left)
      fun _ => True := by
  let F := reading image size
  induction left generalizing slot best with
  | zero => exact F.done trivial
  | succ left ih =>
    obtain ⟨next_eq, value⟩ := next_word (by omega : slot.toNat + 1 < 2 ^ 32)
    have rest : ∀ best, F.Tracks (latestFrom disk c (slot.toNat + 1).toUInt32 best left)
        (c.latestFrom (slot + 1) best left) fun _ => True := by
      intro best
      rw [next_eq]
      exact ih (slot + 1) best (by omega)
    refine F.carried (descBlock_eq c.superblock slot) ?_
    refine F.carried (Machine.add_eq (by omega)) ?_
    unfold Container.latestFrom
    cases c.superblock.descBlock slot with
    | none => exact rest best
    | some address =>
      refine F.bind (candidateAt_tracks equips address) fun found _ => ?_
      cases found with
      | none => exact rest best
      | some next => exact rest _

theorem latestCheckpoint_tracks (equips : Equips image size disk c.resolver) :
    (reading image size).Tracks (latestCheckpoint disk c) c.latestCheckpoint fun _ => True := by
  let F := reading image size
  have few := c.superblock.descBlocks.toNat_lt
  have first : (0 : UInt32).toNat = 0 := rfl
  refine F.bind (latestFrom_tracks equips _ 0 none (by omega)) fun best _ => ?_
  cases best with
  | none => exact F.refused _
  | some best => exact F.done trivial

theorem checkpointMappings_tracks (equips : Equips image size disk c.resolver) :
    (reading image size).Tracks (checkpointMappings disk c) c.checkpointMappings
      fun _ => True := by
  unfold checkpointMappings Container.checkpointMappings
  cases bound : c.resolver.checkpoint with
  | none => exact (reading image size).done trivial
  | some chain => exact mappings_tracks equips.mirrors (equips.ring chain bound)

theorem volumes_tracks (equips : Equips image size disk c.resolver) :
    (reading image size).Tracks (volumes disk c) c.volumes fun _ => True := by
  let F := reading image size
  refine F.mapM fun slot _ => ?_
  unfold volume Container.volume
  cases c.superblock.volumeOid slot with
  | none => exact F.refused _
  | some oid =>
    refine F.bind (resolve_object_tracks equips _) fun object _ => ?_
    refine F.checked fun _ => ?_
    have magic_runs := Reader.word32.read_runs c.order object.bytes ObjectHeader.size (by decide)
    refine F.bind (decodedAt_tracks F object.address magic_runs) fun magic _ => ?_
    exact F.checked fun _ => F.done trivial

end ObjectStore.Checked
