import ObjectStore.Tree.Locate

/-
Binary search, first as a search for a place where a test changes its answer, with nothing
known of the test, and then for the place of a test that changes once.
-/
namespace ObjectStore.Tree

theorem bisect_empty {above : Nat → Except DecodeError Bool} {lo hi : Nat} (done : ¬lo < hi) :
    bisect above lo hi = .ok lo := by
  rw [bisect, if_neg done]
  rfl

theorem bisect_step {above : Nat → Except DecodeError Bool} {lo hi : Nat} {answer : Bool}
    (lt : lo < hi) (probe : above (lo + (hi - lo) / 2) = .ok answer) :
    bisect above lo hi = if answer then bisect above lo (lo + (hi - lo) / 2)
      else bisect above (lo + (hi - lo) / 2 + 1) hi := by
  rw [bisect, if_pos lt]
  dsimp only
  rw [probe]
  rfl

theorem bisect_fails {above : Nat → Except DecodeError Bool} {lo hi : Nat} {e : DecodeError}
    (lt : lo < hi) (probe : above (lo + (hi - lo) / 2) = .error e) :
    bisect above lo hi = .error e := by
  rw [bisect, if_pos lt]
  dsimp only
  rw [probe]
  rfl

/-- The answer lies where the test was seen to change, or at an end of the range. -/
theorem bisect_asked {above : Nat → Except DecodeError Bool} {lo hi stop : Nat}
    (le : lo ≤ hi) (run : bisect above lo hi = .ok stop) :
    lo ≤ stop ∧ stop ≤ hi ∧ (lo < stop → above (stop - 1) = .ok false) ∧
      (stop < hi → above stop = .ok true) := by
  -- An end of the range that has moved stands where the test was asked.
  induction lo, hi using bisect.induct with
  | case1 lo hi lt mid ihLow ihHigh =>
    have mid_eq : mid = lo + (hi - lo) / 2 := rfl
    cases probe : above mid with
    | error e => rw [bisect_fails lt probe] at run; cases run
    | ok answer =>
      rw [bisect_step lt probe] at run
      cases answer with
      | true =>
        obtain ⟨atLeast, atMost, left, right⟩ := ihLow (by omega) run
        refine ⟨atLeast, by omega, left, fun _ => ?_⟩
        by_cases atMid : stop = mid
        · rw [atMid]; exact probe
        · exact right (by omega)
      | false =>
        obtain ⟨atLeast, atMost, left, right⟩ := ihHigh (by omega) run
        refine ⟨by omega, atMost, fun _ => ?_, right⟩
        by_cases atMid : stop - 1 = mid
        · rw [atMid]; exact probe
        · exact left (by omega)
  | case2 lo hi done =>
    rw [bisect_empty done] at run
    cases run
    exact ⟨by omega, by omega, by omega, by omega⟩

/-- A search fails only where the test does, at a place in its range. -/
theorem bisect_eq_error {above : Nat → Except DecodeError Bool} {lo hi : Nat} {e : DecodeError}
    (failed : bisect above lo hi = .error e) : ∃ i, lo ≤ i ∧ i < hi ∧ above i = .error e := by
  induction lo, hi using bisect.induct with
  | case1 lo hi lt mid ihLow ihHigh =>
    cases probe : above mid with
    | error e' =>
      rw [bisect_fails lt probe] at failed
      cases failed
      exact ⟨mid, by omega, by omega, probe⟩
    | ok answer =>
      rw [bisect_step lt probe] at failed
      cases answer with
      | true =>
        obtain ⟨i, atLeast, below, asked⟩ := ihLow failed
        exact ⟨i, atLeast, by omega, asked⟩
      | false =>
        obtain ⟨i, atLeast, below, asked⟩ := ihHigh failed
        exact ⟨i, by omega, below, asked⟩
  | case2 lo hi done =>
    rw [bisect_empty done] at failed
    cases failed

/-- Where the test changes once, the search finds the place. -/
theorem bisect_threshold {above : Nat → Except DecodeError Bool} {lo hi n : Nat}
    (lower : lo ≤ n) (upper : n ≤ hi) (below : ∀ i, lo ≤ i → i < n → above i = .ok false)
    (beyond : ∀ i, n ≤ i → i < hi → above i = .ok true) : bisect above lo hi = .ok n := by
  induction lo, hi using bisect.induct with
  | case1 lo hi lt mid ihLow ihHigh =>
    have mid_eq : mid = lo + (hi - lo) / 2 := rfl
    by_cases side : mid < n
    · rw [bisect_step lt (below mid (by omega) side)]
      exact ihHigh (by omega) upper (fun i _ => below i (by omega)) beyond
    · rw [bisect_step lt (beyond mid (by omega) (by omega))]
      exact ihLow lower (by omega) below (fun i atLeast _ => beyond i atLeast (by omega))
  | case2 lo hi done =>
    have same : lo = n := by omega
    rw [bisect_empty done, same]

end ObjectStore.Tree
