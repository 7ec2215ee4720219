import ObjectStore.Proofs.Records

/-
What a search for a version comes to: the newest version of the object that is not newer than
asked for.
-/
namespace ObjectStore

theorem VersionKey.isLE_compare (a b : VersionKey) :
    (compare a b).isLE = true ↔ a.oid < b.oid ∨ (a.oid = b.oid ∧ a.xid ≤ b.xid) := by
  rw [compare, Ordering.isLE_then_iff_or, Std.compare_eq_lt, Std.compare_eq_iff_eq,
    Std.isLE_compare]

namespace Tree.KeyView

variable {records : List (Record VersionKey)} {target : VersionKey}

/-- A record of the newest version of an object up to a transaction. -/
structure Newest (records : List (Record VersionKey)) (target : VersionKey)
    (r : Record VersionKey) : Prop where
  mem : r ∈ records
  oid_eq : r.key.oid = target.oid
  xid_le : r.key.xid ≤ target.xid
  newest : ∀ other ∈ records, other.key.oid = target.oid → other.key.xid ≤ target.xid →
    other.key.xid ≤ r.key.xid

theorem floor_last {r : Record VersionKey}
    (ascending : versionKeys.Ascending (records.map Record.key))
    (low : versionKeys.floor records target = some r) :
    r ∈ records ∧ versionKeys.atMost target r.key = true ∧
      ∀ other ∈ records, versionKeys.atMost target other.key = true →
        (VersionKey.compare other.key r.key).isLE = true := by
  have mem := List.mem_of_getLast? low
  obtain ⟨inside, below⟩ := List.mem_filter.mp mem
  refine ⟨inside, below, fun other inRecords low_other => ?_⟩
  obtain ⟨front, split⟩ := List.getLast?_eq_some_iff.mp low
  have sorted := (List.pairwise_map.mp ascending).filter (fun r => versionKeys.atMost target r.key)
  have listed : other ∈ front ++ [r] := by
    rw [← split]
    exact List.mem_filter.mpr ⟨inRecords, low_other⟩
  rw [split, List.pairwise_append] at sorted
  rcases List.mem_append.mp listed with earlier | last
  · exact sorted.2.2 other earlier r (List.mem_singleton_self r)
  · rw [List.mem_singleton.mp last, VersionKey.isLE_compare]
    exact .inr ⟨rfl, UInt64.le_refl _⟩

theorem atMost_version {k : VersionKey} : versionKeys.atMost target k = true ↔
    k.oid < target.oid ∨ (k.oid = target.oid ∧ k.xid ≤ target.xid) :=
  k.isLE_compare target

/-- A search for a version finds the newest one. -/
theorem newest_of_scan {r : Record VersionKey}
    (ascending : versionKeys.Ascending (records.map Record.key))
    (found : versionKeys.scan records target .versioned = some r) : Newest records target r := by
  obtain ⟨low, same⟩ := Option.filter_eq_some_iff.mp found
  obtain ⟨mem, below, last⟩ := floor_last ascending low
  have oid_eq : r.key.oid = target.oid := beq_iff_eq.mp same
  refine ⟨mem, oid_eq, ?_, fun other inRecords other_oid other_xid => ?_⟩
  · rcases atMost_version.mp below with lower | ⟨-, le⟩
    · rw [oid_eq] at lower
      exact absurd lower (UInt64.lt_irrefl _)
    · exact le
  · have before := last other inRecords (atMost_version.mpr (.inr ⟨other_oid, other_xid⟩))
    rcases (VersionKey.isLE_compare _ _).mp before with lower | ⟨-, le⟩
    · rw [other_oid, oid_eq] at lower
      exact absurd lower (UInt64.lt_irrefl _)
    · exact le

/-- It finds nothing only if the object has no version that is old enough. -/
theorem none_of_scan (ascending : versionKeys.Ascending (records.map Record.key))
    (nothing : versionKeys.scan records target .versioned = none) :
    ∀ other ∈ records, other.key.oid = target.oid → target.xid < other.key.xid := by
  intro other inRecords other_oid
  apply UInt64.not_le.mp
  intro other_xid
  have below := atMost_version.mpr (.inr ⟨other_oid, other_xid⟩)
  cases low : versionKeys.floor records target with
  | none =>
    rw [floor, List.getLast?_eq_none_iff, List.filter_eq_nil_iff] at low
    exact low other inRecords below
  | some r =>
    obtain ⟨-, r_below, last⟩ := floor_last ascending low
    have not_same : r.key.oid ≠ target.oid := by
      have refused : (versionKeys.floor records target).filter
          (fun r => versionKeys.same r.key target) = none := nothing
      rw [low] at refused
      intro same
      have is_version : versionKeys.same r.key target = true := beq_iff_eq.mpr same
      rw [Option.filter_some, if_pos is_version] at refused
      cases refused
    have r_lower : r.key.oid < target.oid := by
      rcases atMost_version.mp r_below with lower | ⟨same, -⟩
      · exact lower
      · exact absurd same not_same
    rcases (VersionKey.isLE_compare _ _).mp (last other inRecords below) with lower | ⟨same, -⟩
    · rw [other_oid] at lower
      exact UInt64.lt_irrefl _ (UInt64.lt_trans lower r_lower)
    · exact not_same (same.symm.trans other_oid)

end Tree.KeyView

end ObjectStore
