/-
  Hash/Delete.lean --- finding a bucket, and closing the gap behind a deletion.

  `findLoop` stops at a bucket with the key, if there is one (`findLoop_found`), and otherwise
  at the first free bucket (`findLoop_absent`).  `shiftLoop` starts with a hole in a tidy table
  and ends with a tidy table that holds what was held beside the hole (`shiftLoop_held`): each
  round moves the next entry back into the hole, until the next bucket is free or its entry is
  at home.
-/
import NoGround.Hash.Insert

set_option autoImplicit false

namespace NoGround

open NoGround.Lib
open Function (update)

variable {α : Type} {T : ItemType α} {N room mask : Nat} {buckets : Nat → Bucket α}
  {key : Nat × α}

/-! ## Finding a bucket -/

theorem findLoop_absent (hr : Ring N room mask)
    (hnot : ∀ x ∈ inBuckets N buckets, T.same key x = false) (fuel : Nat) :
    ∀ i s, i < N → (buckets ((i + s) % N)).dib = 0 → s < fuel →
      findLoop T room mask buckets key fuel i = some none := by
  induction fuel with
  | zero => exact fun _ _ _ _ hlt => absurd hlt (Nat.not_lt_zero _)
  | succ fuel ih =>
    intro i s hi hfree hlt
    have hat := hr.bucket_at buckets hi
    by_cases hdib : (buckets i).dib = 0
    · simp [findLoop, hat, hdib]
    · obtain ⟨s, rfl, hlt', hnext⟩ := free_ahead hi hdib hfree
      have hrun := ih ((i + 1) % N) s hlt' (by rw [hnext, hfree]) (by omega)
      have hmiss := hnot _ (mem_inBuckets hi hdib)
      simpa [findLoop, hat, hdib, hmiss, hr.masked] using hrun

theorem findLoop_found (hr : Ring N room mask) (ht : Tidy N buckets) {h p k : Nat}
    (hp : HeldAt N buckets h p k) (hsame : T.same key (buckets p).entry = true) (fuel : Nat) :
    ∀ j, j ≤ k → k - j < fuel →
      ∃ q < N, (buckets q).dib ≠ 0 ∧ T.same key (buckets q).entry = true ∧
        findLoop T room mask buckets key fuel ((h + j) % N) = some (some q) := by
  induction fuel with
  | zero => exact fun _ _ hlt => absurd hlt (Nat.not_lt_zero _)
  | succ fuel ih =>
    intro j hj hlt
    have hN : 0 < N := Nat.zero_lt_of_lt hp.inside
    have hhere : (h + j) % N < N := Nat.mod_lt _ hN
    have hat := hr.bucket_at buckets hhere
    have htaken : (buckets ((h + j) % N)).dib ≠ 0 :=
      Nat.ne_of_gt (Nat.zero_lt_of_lt (hp.reach ht hj))
    by_cases hmatch : T.same key (buckets ((h + j) % N)).entry = true
    · refine ⟨(h + j) % N, hhere, htaken, hmatch, ?_⟩
      simp [findLoop, hat, htaken, hmatch]
    · have hjk : j ≠ k := by
        rintro rfl
        rw [hp.end_eq ht] at hmatch
        exact hmatch hsame
      obtain ⟨q, hq, hqdib, hqsame, hrun⟩ := ih (j + 1) (by omega) (by omega)
      refine ⟨q, hq, hqdib, hqsame, ?_⟩
      rw [← Nat.add_assoc, ← next_mod] at hrun
      rw [Bool.not_eq_true] at hmatch
      simpa [findLoop, hat, htaken, hmatch, hr.masked] using hrun

/-! ## Closing the gap -/

/-- The loop ends before the free bucket `e` at the latest. -/
theorem shiftLoop_held (hr : Ring N room mask) (fuel : Nat) :
    ∀ (buckets : Nat → Bucket α) (q s : Nat), q < N →
      Holed N (Bucket.dib ∘ buckets) (Bucket.hash ∘ buckets) q →
      (buckets ((q + (s + 1)) % N)).dib = 0 → s + 1 < N → s < fuel →
      ∃ buckets', shiftLoop room mask fuel buckets q = some buckets' ∧ Tidy N buckets' ∧
        (inBuckets N buckets').Perm (others N q (slot ∘ buckets)) := by
  induction fuel with
  | zero => exact fun _ _ _ _ _ _ _ hs => absurd hs (Nat.not_lt_zero _)
  | succ fuel ih =>
    intro buckets q s hq hholed hfree hsN hs
    have hnext := hr.next_lt q
    have hat := hr.bucket_at buckets hnext
    by_cases hdib : (buckets ((q + 1) % N)).dib ≤ 1
    · refine ⟨update buckets q { buckets q with dib := 0 }, ?_, ?_, ?_⟩
      · simp [shiftLoop, hr.masked, hat, hdib]
      · have := hholed.close hdib (buckets q).hash
        rwa [Tidy, Function.comp_update, Function.comp_update]
      · exact inBuckets_update hq buckets _
    · obtain ⟨k, hk⟩ : ∃ k, (buckets ((q + 1) % N)).dib = k + 2 :=
        Nat.exists_eq_add_of_le' (by omega)
      -- the free bucket is farther on
      obtain ⟨s, rfl⟩ : ∃ s', s = s' + 1 := by
        apply Nat.exists_eq_succ_of_ne_zero
        rintro rfl
        rw [Nat.zero_add] at hfree
        omega
      have hfar : ((q + 1) % N + (s + 1)) % N = (q + (s + 1 + 1)) % N := by
        rw [Nat.mod_add_mod, show q + 1 + (s + 1) = q + (s + 1 + 1) by omega]
      have hmoved := hholed.shift hr.large hq hk
      let moved : Bucket α := { buckets ((q + 1) % N) with dib := k + 1 }
      have hfree' : (update buckets q moved (((q + 1) % N + (s + 1)) % N)).dib = 0 := by
        rw [hfar, Function.update_of_ne (add_mod_ne hq (Nat.succ_pos _) hsN), hfree]
      obtain ⟨buckets', hrun, htidy, hheld⟩ :=
        ih (update buckets q moved) ((q + 1) % N) s hnext
          (by rwa [Function.comp_update, Function.comp_update]) hfree' (by omega) (by omega)
      refine ⟨buckets', ?_, htidy, hheld.trans ?_⟩
      · simpa [shiftLoop, hr.masked, hat, hdib, hk, moved] using hrun
      · have hne : (q + 1) % N ≠ q := add_mod_ne hq Nat.one_pos (by omega)
        have hwith := inBuckets_update hq buckets moved
        have hbehind := inBuckets_perm hnext (update buckets q moved)
        rw [Function.update_of_ne hne, slot_taken (by omega)] at hbehind
        rw [slot_taken (by exact Nat.succ_ne_zero k)] at hwith
        exact (hbehind.symm.trans hwith).cons_inv

end NoGround
