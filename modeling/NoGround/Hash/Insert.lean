/-
  Hash/Insert.lean --- what the insertion loop does to the buckets.

  The loop is walked with an entry in hand (`InHand`).  Where nothing in the buckets is the
  same as the entry, it ends at the first free bucket at the latest, and the buckets hold the
  entry and what they held before (`insertLoop_new`).  Where something is, the loop comes to
  it before it has exchanged anything, and replaces its item (`insertLoop_found`).
-/
import NoGround.Hash.Hashmap
import NoGround.Lib.Dictionary
import NoGround.Lib.RobinHood

set_option autoImplicit false

namespace NoGround

open NoGround.Lib
open Function (update)

variable {α : Type}

/-! ## Buckets as slots -/

/-- What a bucket holds. -/
def slot (bucket : Bucket α) : Option (Nat × α) :=
  if bucket.dib = 0 then none else some bucket.entry

theorem slot_eq_none {bucket : Bucket α} : slot bucket = none ↔ bucket.dib = 0 := by
  by_cases h : bucket.dib = 0 <;> simp [slot, h]

theorem slot_taken {bucket : Bucket α} (h : bucket.dib ≠ 0) : slot bucket = some bucket.entry :=
  if_neg h

theorem slot_free {bucket : Bucket α} (h : bucket.dib = 0) : slot bucket = none := if_pos h

/-- What the buckets below `N` hold, in their order. -/
def inBuckets (N : Nat) (buckets : Nat → Bucket α) : List (Nat × α) := contents N (slot ∘ buckets)

/-- The distances and the hashes of the buckets are those of a robin hood table. -/
def Tidy (N : Nat) (buckets : Nat → Bucket α) : Prop :=
  Placed N (Bucket.dib ∘ buckets) (Bucket.hash ∘ buckets)

/-- The `mask` is that of `N` buckets, and there is room for them. -/
structure Ring (N room mask : Nat) : Prop where
  masked : ∀ x, x &&& mask = x % N
  inside : N ≤ room
  large : 2 < N

theorem Ring.bucket_at {N room mask : Nat} (hr : Ring N room mask) (buckets : Nat → Bucket α)
    {i : Nat} (hi : i < N) : bucket_at room buckets i = some (buckets i) :=
  if_pos (Nat.lt_of_lt_of_le hi hr.inside)

theorem Ring.next_lt {N room mask : Nat} (hr : Ring N room mask) (i : Nat) : (i + 1) % N < N :=
  Nat.mod_lt _ (by have := hr.large; omega)

variable {N room mask : Nat} {buckets : Nat → Bucket α} {i : Nat} {x : Bucket α}

theorem mem_inBuckets (hi : i < N) (h : (buckets i).dib ≠ 0) :
    (buckets i).entry ∈ inBuckets N buckets :=
  mem_contents.mpr ⟨i, hi, slot_taken h⟩

/-- What is held, with bucket `i` in front. -/
theorem inBuckets_perm (hi : i < N) (buckets : Nat → Bucket α) :
    (inBuckets N buckets).Perm ((slot (buckets i)).toList ++ others N i (slot ∘ buckets)) :=
  contents_perm hi _

/-- What is held after bucket `i` was written. -/
theorem inBuckets_update (hi : i < N) (buckets : Nat → Bucket α) (x : Bucket α) :
    (inBuckets N (update buckets i x)).Perm ((slot x).toList ++ others N i (slot ∘ buckets)) := by
  have h := inBuckets_perm hi (update buckets i x)
  rwa [Function.update_self, Function.comp_update, others_update] at h

theorem card_occupied (N : Nat) (buckets : Nat → Bucket α) :
    (occupied N (Bucket.dib ∘ buckets)).card = (inBuckets N buckets).length :=
  card_occupied_eq fun _ => slot_eq_none

/-- A bucket is free where there are more buckets than entries. -/
theorem exists_free_bucket (h : (inBuckets N buckets).length < N) :
    ∃ e < N, (buckets e).dib = 0 := by
  obtain ⟨e, he, hfree⟩ := exists_free h
  exact ⟨e, he, slot_eq_none.mp hfree⟩

/-- No distance is greater than the number of entries. -/
theorem Tidy.dib_le (h : Tidy N buckets) (hlen : (inBuckets N buckets).length < N) (hi : i < N) :
    (buckets i).dib ≤ (inBuckets N buckets).length := by
  obtain ⟨e, he, hfree⟩ := exists_free_bucket hlen
  have := Placed.dib_le h he hfree hi
  rwa [card_occupied] at this

/-! ## An entry in hand -/

/-- `entry` is in hand before bucket `i`; the distance is `k + 1`, and no distance gets too
large for its bits. -/
structure InHand (N : Nat) (buckets : Nat → Bucket α) (entry : Bucket α) (i k : Nat) : Prop where
  tidy : Tidy N buckets
  carried : Carried N (Bucket.dib ∘ buckets) i k entry.hash
  dib : entry.dib = k + 1
  here : i < N
  short : (inBuckets N buckets).length < N
  few : (inBuckets N buckets).length + 1 < dibSize

variable {entry : Bucket α} {k : Nat}

theorem InHand.le (h : InHand N buckets entry i k) : k ≤ (inBuckets N buckets).length := by
  obtain ⟨e, he, hfree⟩ := exists_free_bucket h.short
  have := h.carried.le h.tidy h.here he hfree
  rwa [card_occupied] at this

theorem inHand_start (hN : 0 < N) (ht : Tidy N buckets) (hshort : (inBuckets N buckets).length < N)
    (hfew : (inBuckets N buckets).length + 1 < dibSize) (hdib : entry.dib = 1) :
    InHand N buckets entry (entry.hash % N) 0 where
  tidy := ht
  carried := carried_start _ _ _
  dib := hdib
  here := Nat.mod_lt _ hN
  short := hshort
  few := hfew

/-- Walking on past a bucket that is no nearer to its home. -/
theorem InHand.next (h : InHand N buckets entry i k) (hfar : ¬ (buckets i).dib < entry.dib) :
    InHand N buckets { entry with dib := (entry.dib + 1) % dibSize } ((i + 1) % N) (k + 1) := by
  have hle' : k + 1 ≤ (buckets i).dib := by
    rw [← h.dib]
    exact Nat.le_of_not_lt hfar
  have hcarried := h.carried.next h.here hle'
  have hlt : (i + 1) % N < N := Nat.mod_lt _ (Nat.zero_lt_of_lt h.here)
  obtain ⟨e, he, hfree⟩ := exists_free_bucket h.short
  have hle := hcarried.le h.tidy hlt he hfree
  rw [card_occupied] at hle
  have hfew := h.few
  refine ⟨h.tidy, hcarried, ?_, hlt, h.short, h.few⟩
  rw [h.dib, Nat.mod_eq_of_lt (by omega)]

/-- After an exchange with a nearer one, that one is in hand. -/
theorem InHand.swap (h : InHand N buckets entry i k) (hdib : (buckets i).dib ≠ 0)
    (hnear : (buckets i).dib < entry.dib) :
    InHand N (update buckets i entry)
      { buckets i with dib := ((buckets i).dib + 1) % dibSize } ((i + 1) % N)
      (buckets i).dib := by
  obtain ⟨k', hk'⟩ : ∃ k', (buckets i).dib = k' + 1 := Nat.exists_eq_succ_of_ne_zero hdib
  have hlt : (i + 1) % N < N := Nat.mod_lt _ (Nat.zero_lt_of_lt h.here)
  have hlen : (inBuckets N (update buckets i entry)).length = (inBuckets N buckets).length := by
    rw [(inBuckets_update h.here buckets entry).length_eq,
      (inBuckets_perm h.here buckets).length_eq, slot_taken hdib,
      slot_taken (by rw [h.dib]; exact Nat.succ_ne_zero k)]
    rfl
  have htidy : Tidy N (update buckets i entry) := by
    have hle : (buckets i).dib ≤ k + 1 := by
      rw [← h.dib]
      exact Nat.le_of_lt hnear
    have := Carried.put h.tidy h.carried h.here hle
    rwa [Tidy, Function.comp_update, Function.comp_update, h.dib]
  have hnear' : k' ≤ k := by
    have := h.dib
    omega
  have hcarried := Carried.swap h.tidy h.here hk' hnear'
  have hcard := h.le
  have hfew := h.few
  refine ⟨htidy, ?_, ?_, hlt, by rw [hlen]; exact h.short, by rw [hlen]; exact h.few⟩
  · rwa [Function.comp_update, h.dib, hk']
  · have := h.dib
    exact Nat.mod_eq_of_lt (by omega)

/-! ## Putting a new entry in -/

/-- From a taken bucket a free one is at least a step ahead. -/
theorem free_ahead {s : Nat} (hi : i < N) (hdib : (buckets i).dib ≠ 0)
    (hfree : (buckets ((i + s) % N)).dib = 0) :
    ∃ s', s = s' + 1 ∧ (i + 1) % N < N ∧ ((i + 1) % N + s') % N = (i + s) % N := by
  obtain ⟨s', rfl⟩ : ∃ s', s = s' + 1 := by
    apply Nat.exists_eq_succ_of_ne_zero
    rintro rfl
    rw [Nat.add_zero, Nat.mod_eq_of_lt hi] at hfree
    exact hdib hfree
  refine ⟨s', rfl, Nat.mod_lt _ (Nat.zero_lt_of_lt hi), ?_⟩
  rw [Nat.mod_add_mod, Nat.add_assoc, Nat.add_comm 1 s']

variable {same : Nat × α → Nat × α → Bool}

theorem insertLoop_new (hr : Ring N room mask) (hm : Matching same) (fuel : Nat) :
    ∀ (buckets : Nat → Bucket α) (entry : Bucket α) (i k s : Nat),
      InHand N buckets entry i k → Distinct same (entry.entry :: inBuckets N buckets) →
      (buckets ((i + s) % N)).dib = 0 → s < fuel →
      ∃ buckets', insertLoop same room mask fuel buckets entry i = some (buckets', none) ∧
        Tidy N buckets' ∧ (inBuckets N buckets').Perm (entry.entry :: inBuckets N buckets) := by
  induction fuel with
  | zero => exact fun _ _ _ _ _ _ _ _ hs => absurd hs (Nat.not_lt_zero _)
  | succ fuel ih =>
    intro buckets entry i k s hin hdistinct hfree hs
    have hat := hr.bucket_at buckets hin.here
    by_cases hdib : (buckets i).dib = 0
    · refine ⟨update buckets i entry, ?_, ?_, ?_⟩
      · simp [insertLoop, hat, hdib]
      · have hle : (buckets i).dib ≤ k + 1 := by omega
        have := Carried.put hin.tidy hin.carried hin.here hle
        rwa [Tidy, Function.comp_update, Function.comp_update, hin.dib]
      · have hnew := inBuckets_update hin.here buckets entry
        have hold := inBuckets_perm hin.here buckets
        rw [slot_taken (by rw [hin.dib]; exact Nat.succ_ne_zero k)] at hnew
        rw [slot_free hdib] at hold
        exact hnew.trans (hold.symm.cons _)
    · obtain ⟨s, rfl, -, hnext⟩ := free_ahead hin.here hdib hfree
      have hnot : same entry.entry (buckets i).entry = false :=
        (List.pairwise_cons.mp hdistinct).1 _ (mem_inBuckets hin.here hdib)
      by_cases hnear : (buckets i).dib < entry.dib
      · have hswap := hin.swap hdib hnear
        have hperm : ((buckets i).entry :: inBuckets N (update buckets i entry)).Perm
            (entry.entry :: inBuckets N buckets) := by
          have hnew := inBuckets_update hin.here buckets entry
          have hold := inBuckets_perm hin.here buckets
          rw [slot_taken (by rw [hin.dib]; exact Nat.succ_ne_zero k)] at hnew
          rw [slot_taken hdib] at hold
          exact ((hnew.cons _).trans (List.Perm.swap _ _ _)).trans (hold.symm.cons _)
        have hfree' : (update buckets i entry (((i + 1) % N + s) % N)).dib = 0 := by
          rw [hnext, Function.update_of_ne, hfree]
          intro heq
          rw [heq] at hfree
          exact hdib hfree
        have hdistinct' :
            Distinct same ((buckets i).entry :: inBuckets N (update buckets i entry)) :=
          hdistinct.perm hm hperm.symm
        obtain ⟨buckets', hrun, htidy, hheld⟩ :=
          ih _ _ _ _ s hswap hdistinct' hfree' (by omega)
        refine ⟨buckets', ?_, htidy, hheld.trans hperm⟩
        simpa [insertLoop, hat, hdib, hnot, hnear, hr.masked] using hrun
      · have hfree' : (buckets (((i + 1) % N + s) % N)).dib = 0 := by rw [hnext, hfree]
        obtain ⟨buckets', hrun, htidy, hheld⟩ :=
          ih _ _ _ _ s (hin.next hnear) hdistinct hfree' (by omega)
        refine ⟨buckets', ?_, htidy, hheld⟩
        simpa [insertLoop, hat, hdib, hnot, hnear, hr.masked] using hrun

/-! ## Replacing an item -/

/-- Bucket `p` holds an entry of the hash `h`. -/
structure HeldAt (N : Nat) (buckets : Nat → Bucket α) (h p k : Nat) : Prop where
  inside : p < N
  dib : (buckets p).dib = k + 1
  hash : (buckets p).hash = h

theorem heldAt_of_mem {e : Nat × α} (he : e ∈ inBuckets N buckets) :
    ∃ p k, HeldAt N buckets e.1 p k ∧ (buckets p).entry = e := by
  obtain ⟨p, hp, hslot⟩ := mem_contents.mp he
  have hdib : (buckets p).dib ≠ 0 := by
    intro hzero
    rw [Function.comp_apply, slot_free hzero] at hslot
    exact absurd hslot (Option.some_ne_none e).symm
  rw [Function.comp_apply, slot_taken hdib, Option.some.injEq] at hslot
  obtain ⟨k, hk⟩ := Nat.exists_eq_succ_of_ne_zero hdib
  exact ⟨p, k, ⟨hp, hk, by rw [← hslot]; rfl⟩, hslot⟩

variable {h p j : Nat}

/-- The buckets from the home of an entry to the entry are taken, each by one no nearer to its
home than the walk is. -/
theorem HeldAt.reach (hp : HeldAt N buckets h p k) (ht : Tidy N buckets) (hj : j ≤ k) :
    j < (buckets ((h + j) % N)).dib := by
  have hreach := Placed.reach ht hp.inside hp.dib hj
  simp only [Function.comp_apply, hp.hash] at hreach
  exact hreach

theorem HeldAt.end_eq (hp : HeldAt N buckets h p k) (ht : Tidy N buckets) : (h + k) % N = p := by
  have := ht.homed p hp.inside k hp.dib
  rwa [Function.comp_apply, hp.hash] at this

theorem HeldAt.dib_lt (hp : HeldAt N buckets h p k) (ht : Tidy N buckets)
    (hshort : (inBuckets N buckets).length < N) (hfew : (inBuckets N buckets).length < dibSize) :
    k + 1 < dibSize := by
  have := ht.dib_le hshort hp.inside
  rw [hp.dib] at this
  omega

theorem insertLoop_found (hr : Ring N room mask) (ht : Tidy N buckets)
    (hp : HeldAt N buckets h p k) (hk : k + 1 < dibSize) (fuel : Nat) :
    ∀ (entry : Bucket α) (j : Nat), same entry.entry (buckets p).entry = true →
      entry.dib = j + 1 → j ≤ k → k - j < fuel →
      ∃ q < N, (buckets q).dib ≠ 0 ∧ same entry.entry (buckets q).entry = true ∧
        insertLoop same room mask fuel buckets entry ((h + j) % N) =
          some (update buckets q { buckets q with item := entry.item },
            some (buckets q).item) := by
  induction fuel with
  | zero => exact fun _ _ _ _ _ hlt => absurd hlt (Nat.not_lt_zero _)
  | succ fuel ih =>
    intro entry j hsame hdib hj hlt
    have hN : 0 < N := Nat.zero_lt_of_lt hp.inside
    have hhere : (h + j) % N < N := Nat.mod_lt _ hN
    have hreach := hp.reach ht hj
    have hat := hr.bucket_at buckets hhere
    have htaken : (buckets ((h + j) % N)).dib ≠ 0 := Nat.ne_of_gt (Nat.zero_lt_of_lt hreach)
    by_cases hmatch : same entry.entry (buckets ((h + j) % N)).entry = true
    · refine ⟨(h + j) % N, hhere, htaken, hmatch, ?_⟩
      simp [insertLoop, hat, htaken, hmatch]
    · -- the walk has not come to the entry, and nothing on the way is nearer to its home
      have hjk : j ≠ k := by
        rintro rfl
        rw [hp.end_eq ht] at hmatch
        exact hmatch hsame
      have hfar : ¬ (buckets ((h + j) % N)).dib < entry.dib := by omega
      have hdib' : (entry.dib + 1) % dibSize = j + 1 + 1 := by
        rw [hdib, Nat.mod_eq_of_lt (by omega)]
      obtain ⟨q, hq, hqdib, hqsame, hrun⟩ :=
        ih { entry with dib := (entry.dib + 1) % dibSize } (j + 1) hsame hdib' (by omega) (by omega)
      refine ⟨q, hq, hqdib, hqsame, ?_⟩
      rw [← Nat.add_assoc, ← next_mod] at hrun
      rw [Bool.not_eq_true] at hmatch
      simpa [insertLoop, hat, htaken, hmatch, hfar, hr.masked] using hrun

end NoGround
