import ObjectStore.Proofs.LeafMaps
import ObjectStore.Proofs.Opening

/-
Whole runs of calls on a resolver, with the nodes it remembers and without.
-/
namespace ObjectStore

open Session ObjectStore.Tree

inductive Call : Type 1 where
  | resolve (reference : Reference)
  | lookupMapping (oid : ObjectId) (xid : TransactionId)
  | readNode (reference : Reference)
  | find {τ : Type} (order : KeyOrder τ) (root : Reference) (target : τ) (how : Match)
  | walk {τ : Type} (root : Reference) (visit : Bytes → Bytes → Session τ Unit) (own : τ)

namespace Call

/-- What the caller hears. Of a walk that includes what its visitor was left with. -/
def Outcome : Call → Type
  | resolve _ => Except StoreError ResolvedObject
  | lookupMapping _ _ => Except StoreError Mapping
  | readNode _ => Except StoreError Loaded
  | find _ _ _ _ => Except StoreError Found
  | @walk τ _ _ _ => Except StoreError Nat × τ

def run (r : Resolver) : (c : Call) → Memory → c.Outcome × Memory
  | resolve reference, memory => (r.resolve reference).perform memory
  | lookupMapping oid xid, memory => (r.lookupMapping oid xid).perform memory
  | readNode reference, memory => (r.readNode reference).perform memory
  | find order root target how, memory =>
      (r.navigator.find order root target how).perform memory
  | walk root visit own, memory =>
      let (result, memory, final) := (r.navigator.walkWith root visit).perform (memory, own)
      ((result, final), memory)

end Call

namespace Resolver

/-- What a list of calls in turn come to, and the memory that they leave. -/
def answers (r : Resolver) : List Call → Memory → List (Σ c : Call, c.Outcome) × Memory
  | [], memory => ([], memory)
  | c :: calls, memory =>
      let (outcome, memory) := c.run r memory
      let (outcomes, memory) := r.answers calls memory
      (⟨c, outcome⟩ :: outcomes, memory)

def uncached (r : Resolver) : Resolver :=
  { r with options := { r.options with cacheCapacity := 0 } }

variable {source : BlockSource (Except StoreError)} {r : Resolver}

theorem run_uncached (r : Resolver) (c : Call) (memory : Memory) :
    c.run r.uncached memory = c.run r memory := by
  cases c <;> rfl

theorem answers_uncached (r : Resolver) (calls : List Call) (memory : Memory) :
    r.uncached.answers calls memory = r.answers calls memory := by
  induction calls generalizing memory with
  | nil => rfl
  | cons c calls ih =>
    rw [answers, answers, run_uncached]
    dsimp only
    rw [ih]

/-- One call, beside the same call without remembered nodes. -/
theorem level_run (source_eq : r.source = source.remembered) (c : Call) :
    (∀ t, Steady source r.order (c.run r t).2.accesses → Steady source r.order t.accesses) ∧
    ∀ s t, Memory.Beside source r.order s t → Steady source r.order (c.run r t).2.accesses →
      (c.run r s).1 = (c.run r t).1 ∧ Memory.Beside source r.order (c.run r s).2 (c.run r t).2 := by
  cases c with
  | resolve reference =>
    have level := level_resolve source_eq reference
    exact ⟨level.lasting, level.agree⟩
  | lookupMapping oid xid =>
    have level := level_lookupMapping source_eq oid xid
    exact ⟨level.lasting, level.agree⟩
  | readNode reference =>
    have level := level_readNode source_eq reference
    exact ⟨level.lasting, level.agree⟩
  | find order root target how =>
    have level := Navigator.simulates_find (navigator_agrees source_eq) order root target how
    exact ⟨level.lasting, level.agree⟩
  | walk root visit own =>
    have level := Navigator.simulates_walkWith (navigator_agrees source_eq) root visit
    refine ⟨fun t steady => level.lasting (t, own) steady, fun s t beside steady => ?_⟩
    obtain ⟨same, kept, final⟩ := level.agree (s, own) (t, own) ⟨beside, rfl⟩ steady
    exact ⟨Prod.ext same final, kept⟩

theorem lasting_answers (source_eq : r.source = source.remembered) (calls : List Call) (t : Memory)
    (steady : Steady source r.order (r.answers calls t).2.accesses) :
    Steady source r.order t.accesses := by
  induction calls generalizing t with
  | nil => exact steady
  | cons c calls ih => exact (level_run source_eq c).1 t (ih _ steady)

theorem answers_beside (source_eq : r.source = source.remembered) (calls : List Call) {s t : Memory}
    (beside : Memory.Beside source r.order s t)
    (steady : Steady source r.order (r.answers calls t).2.accesses) :
    (r.answers calls s).1 = (r.answers calls t).1 := by
  induction calls generalizing s t with
  | nil => rfl
  | cons c calls ih =>
    have middle : Steady source r.order (c.run r t).2.accesses :=
      lasting_answers source_eq calls _ steady
    obtain ⟨same, kept⟩ := (level_run source_eq c).2 s t beside middle
    have rest := ih kept steady
    rw [answers, answers]
    dsimp only
    rw [same, rest]

/-- The calls of a run come to the same with a cache of any size as without one, as long as
without one nothing is ever read from the first block of a tree node on but that node. -/
theorem answers_alike (source_eq : r.source = source.remembered) (calls : List Call)
    (steady : Steady source r.order
      (r.uncached.answers calls (.fresh r.uncached.options)).2.accesses) :
    (r.answers calls (.fresh r.options)).1
      = (r.uncached.answers calls (.fresh r.uncached.options)).1 := by
  rw [answers_uncached] at steady ⊢
  exact answers_beside source_eq calls (Memory.beside_fresh source r.order r.options rfl) steady

end Resolver

namespace ContainerDraft

/-- A container with an empty tree node for an object, and a later version of that object mapped
to the same block and the next, which the image does not have. -/
def stretched : ContainerDraft :=
  ((blank .little).addObject ⟨1024, 2, TypeWord.tree, 0⟩).addMapping ⟨1024, 6⟩ ⟨0, 8192, 1058⟩

theorem stretched_modest : stretched.Modest := by
  constructor <;> decide

theorem stretched_early : stretched.Newest 1024 5 (stretched.objectVersion 0 (by decide)) := by
  constructor <;> decide

theorem stretched_late : stretched.Newest 1024 6 (⟨1024, 6⟩, ⟨0, 8192, 1058⟩) := by
  constructor <;> decide

structure OpenStretched (contents : Bytes) (size : BlockSize)
    (source : BlockSource (Except StoreError)) (r : Resolver) (top node : Node) : Prop where
  opened : BlockSource.ofBytes contents size = .ok source
  options_eq : r.options = .standard
  early : r.Leads contents size source treeBase top 1024 5 ⟨1058, 1⟩
  late : r.Leads contents size source treeBase top 1024 6 ⟨1058, 2⟩
  stored : source.readBlock 1058 = .ok node.bytes
  beyond : source.readRange 1058 2 = .error (.outOfRange 1058 1059)
  intact : node.Intact r.order node.bytes
  identified : ∀ xid, 2 ≤ xid → identityFault? (.virtual 1024 xid) node.object = none

theorem stretched_opens : ∃ built contents size source c later top node,
    stretched.build = .ok built ∧ built.image.toSource = .ok source ∧
      (Container.openAt source.remembered 0 .standard).perform (.fresh .standard)
        = (.ok c, later) ∧ OpenStretched contents size source c.resolver top node := by
  obtain ⟨p, built, contents, size, source, c, later, run, shown, makes, found, bound, opens, -⟩ :=
    stretched_modest.opens
  have legal := stretched_modest.legal
  have distinct : (stretched.versions.map Prod.fst).Nodup := by decide
  have order_eq : c.resolver.order = .little := bound.reads.order_eq
  have block_size : c.resolver.source.blockSize = 4096 := by
    rw [bound.reads.source_eq]
    exact (BlockSource.ofBytes_eq_ok found.opened).2.1.trans found.size_eq
  have one : c.resolver.placed 1058 4096 = pure ⟨1058, 1⟩ := by
    rw [Resolver.placed, block_size]
    rfl
  have two : c.resolver.placed 1058 8192 = pure ⟨1058, 2⟩ := by
    rw [Resolver.placed, block_size]
    rfl
  have counted : source.blockCount = 1059 := by
    rw [Image.blockCount_of_toSource (filled_of_build makes legal) shown,
      (image_of_build makes legal).1]
    change stretched.blockCount = 1059
    decide
  have past : source.blockCount.toNat < (1058 : BlockAddress).toNat + (2 : UInt32).toNat := by
    rw [counted]
    decide
  have beyond := BlockSource.readRange_beyond found.opened past
  rw [counted] at beyond
  obtain ⟨address_eq, top, at_root, leaf⟩ := leaf_root makes legal found (by decide)
  obtain ⟨node, sum, stored, intact, header_eq⟩ :=
    leaf_object makes legal found rfl (i := 0) (by decide) spells_leaf rfl rfl
  refine ⟨built, contents, size, source, c, later, top, node, run, shown, opens, found.opened,
    (Container.opened_of_openAt opens).options_eq, ?_, ?_, stored, beyond, ?_, fun xid older => ?_⟩
  · exact leads_newest makes legal found distinct bound address_eq at_root leaf (by decide)
      stretched_early (by decide) (by decide) (by decide) one
  · exact leads_newest makes legal found distinct bound address_eq at_root leaf (by decide)
      stretched_late (by decide) (by decide) (by decide) two
  · rw [order_eq]
    exact intact
  · have plain : TypeWord.flags TypeWord.tree = 0 := by decide
    rw [Node.object, header_eq]
    exact Resolver.identityFault_virtual rfl older (virtual_of_plain plain)

def earlyTwice : List Call := [.readNode (.virtual 1024 5), .readNode (.virtual 1024 5)]

def earlyThenLate : List Call := [.readNode (.virtual 1024 5), .readNode (.virtual 1024 6)]

/-- What is read twice from one block is read alike. -/
theorem answers_alike_early_twice : ∃ built source c later node,
    stretched.build = .ok built ∧ built.image.toSource = .ok source ∧
      (Container.openAt source.remembered 0 .standard).perform (.fresh .standard)
        = (.ok c, later) ∧
      Steady source c.resolver.order
        (c.resolver.uncached.answers earlyTwice (.fresh c.resolver.uncached.options)).2.accesses ∧
      (c.resolver.answers earlyTwice (.fresh c.resolver.options)).1
        = [⟨.readNode (.virtual 1024 5), .ok ⟨1058, node⟩⟩,
          ⟨.readNode (.virtual 1024 5), .ok ⟨1058, node⟩⟩] := by
  obtain ⟨built, contents, size, source, c, later, top, node, run, shown, opens, stretches⟩ :=
    stretched_opens
  have read : source.answer (Placement.mk 1058 1).access = .ok node.bytes := stretches.stored
  have identified := stretches.identified 5 (by decide)
  obtain ⟨s, first, first_bare, first_made⟩ :=
    stretches.early.perform_bare_intact read stretches.intact identified
      (s := .fresh c.resolver.uncached.options) rfl
  obtain ⟨t, second, -, second_made⟩ :=
    stretches.early.perform_bare_intact read stretches.intact identified first_bare
  have uncached : c.resolver.uncached.answers earlyTwice (.fresh c.resolver.uncached.options)
      = ([⟨.readNode (.virtual 1024 5), .ok ⟨1058, node⟩⟩,
        ⟨.readNode (.virtual 1024 5), .ok ⟨1058, node⟩⟩], t) := by
    rw [Resolver.answers_uncached]
    simp only [earlyTwice, Resolver.answers, Call.run, first, second]
  have steady : Steady source c.resolver.order
      (c.resolver.uncached.answers earlyTwice (.fresh c.resolver.uncached.options)).2.accesses := by
    rw [uncached, second_made, first_made]
    apply steady_of_single
    change ∀ x ∈ [Access.block 1058, .block treeBase, .block 1058, .block treeBase], x.blocks = 1
    decide
  have alike := Resolver.answers_alike stretches.early.reads.source_eq earlyTwice steady
  rw [uncached] at alike
  exact ⟨built, source, c, later, node, run, shown, opens, steady, alike⟩

/-- One version is read from one block, the next from that block and another. With the first in
its cache the resolver hands it out for the second, which without a cache it refuses. -/
theorem answers_differ_early_late : ∃ built source c later node,
    stretched.build = .ok built ∧ built.image.toSource = .ok source ∧
      (Container.openAt source.remembered 0 .standard).perform (.fresh .standard)
        = (.ok c, later) ∧ c.resolver.source = source.remembered ∧
      (c.resolver.answers earlyThenLate (.fresh c.resolver.options)).1
        = [⟨.readNode (.virtual 1024 5), .ok ⟨1058, node⟩⟩,
          ⟨.readNode (.virtual 1024 6), .ok ⟨1058, node⟩⟩] ∧
      (c.resolver.uncached.answers earlyThenLate (.fresh c.resolver.uncached.options)).1
        = [⟨.readNode (.virtual 1024 5), .ok ⟨1058, node⟩⟩,
          ⟨.readNode (.virtual 1024 6), .error (.outOfRange 1058 1059)⟩] ∧
      (c.resolver.answers earlyThenLate (.fresh c.resolver.options)).1
        ≠ (c.resolver.uncached.answers earlyThenLate (.fresh c.resolver.uncached.options)).1 := by
  obtain ⟨built, contents, size, source, c, later, top, node, run, shown, opens, stretches⟩ :=
    stretched_opens
  have read : source.answer (Placement.mk 1058 1).access = .ok node.bytes := stretches.stored
  have refused : source.answer (Placement.mk 1058 2).access = .error (.outOfRange 1058 1059) :=
    stretches.beyond
  have early := stretches.identified 5 (by decide)
  have late := stretches.identified 6 (by decide)
  have cached : (c.resolver.answers earlyThenLate (.fresh c.resolver.options)).1
      = [⟨.readNode (.virtual 1024 5), .ok ⟨1058, node⟩⟩,
        ⟨.readNode (.virtual 1024 6), .ok ⟨1058, node⟩⟩] := by
    have room : (Cache.ofCapacity 1024 16 : Cache Node).Room 2 :=
      Cache.room_ofCapacity (by decide) (by decide)
    obtain ⟨s, first, known, hit⟩ := stretches.early.perform_remembering (by decide) read
      stretches.intact early (s := .fresh .standard) (sound_fresh _) room (Cache.get_ofCapacity _ _)
    have sound := (Resolver.ensures_readNode stretches.early.reads
      stretches.opened (.virtual 1024 5) (.fresh .standard) (sound_fresh _)).1
    rw [first] at sound
    have second := stretches.late.perform_remembered late sound known hit
    rw [stretches.options_eq]
    simp only [earlyThenLate, Resolver.answers, Call.run, first, second]
  have uncached : (c.resolver.uncached.answers earlyThenLate
      (.fresh c.resolver.uncached.options)).1
        = [⟨.readNode (.virtual 1024 5), .ok ⟨1058, node⟩⟩,
          ⟨.readNode (.virtual 1024 6), .error (.outOfRange 1058 1059)⟩] := by
    obtain ⟨s, first, bare, -⟩ := stretches.early.perform_bare_intact read stretches.intact early
      (s := .fresh c.resolver.uncached.options) rfl
    have second := stretches.late.perform_bare_refused refused bare
    rw [Resolver.answers_uncached]
    simp only [earlyThenLate, Resolver.answers, Call.run, first, second]
  refine ⟨built, source, c, later, node, run, shown, opens, stretches.early.reads.source_eq,
    cached, uncached, ?_⟩
  rw [cached, uncached]
  intro same
  cases (List.cons.inj (List.cons.inj same).2).1

end ContainerDraft

end ObjectStore
