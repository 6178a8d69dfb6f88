/-
  Hash/Resize.lean --- what holds of every map, and that a new map and a resized one have it.

  `Sound` is the invariant of a map: its sizes fit each other and `size_t` (`MapSizes`), its
  buckets are tidy and not all taken, `count` is the number of entries, and no two entries are
  the same.  A resize that `malloc` refuses leaves the map as it is, and one that it grants
  leaves what the map holds.

  `SizesFit` is what a caller of `hashmap_new` must see to for that: neither the doubling nor
  the size of the block wraps, then or ever after.  A map only grows from at least half full,
  so with fewer than `2 ^ 16` entries it never asks for more than `2 ^ 33` buckets.
-/
import NoGround.Hash.Delete

set_option autoImplicit false

namespace NoGround

open NoGround.Lib
open Function (update)

variable {α : Type} {T : ItemType α} {map : Hashmap α}

/-! ## Comparing items -/

/-- To compare equal is symmetric and transitive. -/
structure ItemType.Comparable (T : ItemType α) : Prop where
  symm : ∀ compare, T.compare = some compare → ∀ a b, compare a b = 0 → compare b a = 0
  trans : ∀ compare, T.compare = some compare →
    ∀ a b c, compare a b = 0 → compare b c = 0 → compare a c = 0

theorem ItemType.same_iff {a b : Nat × α} :
    T.same a b = true ↔ a.1 = b.1 ∧ ∀ compare, T.compare = some compare →
      compare a.2 b.2 = 0 := by
  cases h : T.compare <;> simp [ItemType.same, h]

theorem ItemType.Comparable.matching (hT : T.Comparable) : Matching T.same where
  symm := by
    intro a b hab
    obtain ⟨hhash, hitem⟩ := ItemType.same_iff.mp hab
    exact ItemType.same_iff.mpr
      ⟨hhash.symm, fun compare hc => hT.symm compare hc _ _ (hitem compare hc)⟩
  trans := by
    intro a b c hab hbc
    obtain ⟨hhash, hitem⟩ := ItemType.same_iff.mp hab
    obtain ⟨hhash', hitem'⟩ := ItemType.same_iff.mp hbc
    exact ItemType.same_iff.mpr ⟨hhash.trans hhash', fun compare hc =>
      hT.trans compare hc _ _ _ (hitem compare hc) (hitem' compare hc)⟩

/-! ## The invariant -/

/-- What a map holds, in the order of its buckets. -/
def Hashmap.entries (map : Hashmap α) : List (Nat × α) := inBuckets map.nbuckets map.buckets

/-- The sizes of a map: they fit each other, and its block is as large as its buckets. -/
structure MapSizes (map : Hashmap α) : Prop where
  pow : ∃ k, map.nbuckets = 2 ^ (k + 4)
  capPow : ∃ k, map.cap = 2 ^ (k + 4)
  cap_le : map.cap ≤ map.nbuckets
  item : map.elsize + 16 ≤ 2 ^ 30
  bucketsz : map.bucketsz = bucketSize map.elsize
  block : map.bucketsz * map.nbuckets < 2 ^ 64
  room : map.nbuckets ≤ map.room
  loadfactor : 50 ≤ map.loadfactor ∧ map.loadfactor ≤ 95
  growpower : 1 ≤ map.growpower ∧ map.growpower ≤ 16

structure Sound (T : ItemType α) (map : Hashmap α) : Prop extends MapSizes map where
  mask : map.mask = map.nbuckets - 1
  growat : map.growat < map.nbuckets
  half : map.nbuckets ≤ 2 * map.growat
  shrinkat : map.shrinkat = map.nbuckets * 10 / 100
  tidy : Tidy map.nbuckets map.buckets
  count : map.count = map.entries.length
  short : map.count < map.nbuckets
  few : map.count < dibSize
  distinct : Distinct T.same map.entries

theorem sixteen_le (k : Nat) : 16 ≤ 2 ^ (k + 4) := by
  have := Nat.pow_le_pow_right (n := 2) Nat.two_pos (Nat.le_add_left 4 k)
  exact this

theorem MapSizes.large (hs : MapSizes map) : 16 ≤ map.nbuckets := by
  obtain ⟨k, hk⟩ := hs.pow
  rw [hk]
  exact sixteen_le k

/-- The load factor of a map puts `growat` between half of its buckets and all of them. -/
theorem growat_between {N loadfactor : Nat} (hN : ∃ k, N = 2 ^ (k + 4))
    (hload : 50 ≤ loadfactor ∧ loadfactor ≤ 95) :
    N * loadfactor / 100 < N ∧ N ≤ 2 * (N * loadfactor / 100) := by
  obtain ⟨k, rfl⟩ := hN
  have heven : 2 ^ (k + 4) = 2 * 2 ^ (k + 3) := Nat.pow_succ'
  have hpos := Nat.two_pow_pos (k + 3)
  have hlow := Nat.mul_le_mul_left (2 ^ (k + 4)) hload.1
  have hhigh := Nat.mul_le_mul_left (2 ^ (k + 4)) hload.2
  omega

theorem Sound.ring (hs : Sound T map) : Ring map.nbuckets map.room map.mask where
  masked := by
    intro x
    obtain ⟨k, hk⟩ := hs.pow
    rw [hs.mask, hk, Nat.and_two_pow_sub_one_eq_mod]
  inside := hs.room
  large := by
    have := hs.large
    omega

theorem Sound.length_lt (hs : Sound T map) :
    (inBuckets map.nbuckets map.buckets).length < map.nbuckets := by
  have := hs.short
  rwa [hs.count] at this

theorem Sound.withOom (hs : Sound T map) (oom : Bool) : Sound T { map with oom := oom } :=
  { hs with }

/-! ## A new map -/

/-- Sizes for which nothing wraps, in this map or in one that it is resized to: items below a
gibibyte, and twice the buckets that were asked for in what `size_t` counts. -/
structure SizesFit (elsize cap : Nat) : Prop where
  item : elsize + 16 ≤ 2 ^ 30
  block : 2 * cap * bucketSize elsize ≤ 2 ^ 64

theorem roundUp_between (fuel : Nat) :
    ∀ b, b + fuel < 2 ^ 64 → b ≤ roundUp fuel b ∧ roundUp fuel b ≤ b + fuel := by
  induction fuel with
  | zero => exact fun b _ => ⟨le_refl b, le_refl b⟩
  | succ fuel ih =>
    intro b hb
    rw [roundUp, toSize_of_lt (by omega)]
    split
    · omega
    · have := ih (b + 1) (by omega)
      omega

theorem bucketSize_between {elsize : Nat} (h : elsize + 16 ≤ 2 ^ 30) :
    8 ≤ bucketSize elsize ∧ bucketSize elsize < 2 ^ 30 := by
  have hsum : toSize (bucketHeaderSize + elsize : Nat) = 8 + elsize :=
    toSize_of_lt (by show 8 + elsize < 2 ^ 64; omega)
  have := roundUp_between 7 (8 + elsize) (by omega)
  rw [bucketSize, hsum]
  omega

theorem SizesFit.cap_le {elsize cap : Nat} (h : SizesFit elsize cap) : cap ≤ 2 ^ 63 := by
  have hbucket := (bucketSize_between h.item).1
  have hle := Nat.mul_le_mul_left (2 * cap) hbucket
  have := h.block
  omega

/-- A block that `size_t` counts has room for its buckets. -/
theorem room_of_block {bucketsz n : Nat} (hpos : 0 < bucketsz) (h : bucketsz * n < 2 ^ 64) :
    toSize (bucketsz * n : Nat) / bucketsz = n := by
  rw [toSize_of_lt h, Nat.mul_div_cancel_left n hpos]

theorem doubleUpTo_spec {cap : Nat} (hcap : cap ≤ 2 ^ 63) (fuel : Nat) :
    ∀ k, cap ≤ 2 ^ (k + 4 + fuel) → (k = 0 ∨ 2 ^ (k + 4) < 2 * cap) →
      ∃ k', doubleUpTo cap (fuel + 1) (2 ^ (k + 4)) = some (2 ^ (k' + 4)) ∧
        cap ≤ 2 ^ (k' + 4) ∧ (k' = 0 ∨ 2 ^ (k' + 4) < 2 * cap) := by
  induction fuel with
  | zero =>
    intro k hle hsmall
    exact ⟨k, by rw [doubleUpTo, if_neg (Nat.not_lt.mpr hle)], hle, hsmall⟩
  | succ fuel ih =>
    intro k hle hsmall
    by_cases h : 2 ^ (k + 4) < cap
    · have hdouble : 2 ^ (k + 4) * 2 = 2 ^ (k + 1 + 4) := by
        rw [← Nat.pow_succ]
      have hlt : 2 ^ (k + 4) * 2 < 2 ^ 64 := by omega
      obtain ⟨k', heq, hspec⟩ := ih (k + 1)
        (by rwa [show k + 1 + 4 + fuel = k + 4 + (fuel + 1) by omega])
        (Or.inr (by rw [← hdouble]; omega))
      refine ⟨k', ?_, hspec⟩
      rw [doubleUpTo, if_pos h, toSize_of_lt hlt, hdouble, heq]
    · exact ⟨k, by rw [doubleUpTo, if_neg h], Nat.le_of_not_lt h, hsmall⟩

/-- The number of buckets of a new map is a power of two, no less than was asked for, and less
than twice as many. -/
theorem newCap_spec {cap : Nat} (hcap : cap ≤ 2 ^ 63) :
    ∃ k, newCap cap = some (2 ^ (k + 4)) ∧ cap ≤ 2 ^ (k + 4) ∧
      (k = 0 ∨ 2 ^ (k + 4) < 2 * cap) := by
  by_cases h : cap < 16
  · exact ⟨0, if_pos h, by omega, Or.inl rfl⟩
  · rw [newCap, if_neg h]
    exact doubleUpTo_spec hcap 63 0 (le_trans hcap (by decide)) (Or.inl rfl)

/-- From 2^63 on the doubling comes to 0 and stays there. -/
theorem doubleUpTo_never {cap : Nat} (hcap : 2 ^ 63 < cap) (fuel : Nat) :
    ∀ ncap, ncap = 0 ∨ (∃ k ≤ 63, ncap = 2 ^ k) → doubleUpTo cap fuel ncap = none := by
  induction fuel with
  | zero => exact fun _ _ => rfl
  | succ fuel ih =>
    intro ncap hncap
    have hlt : ncap < cap := by
      rcases hncap with rfl | ⟨k, hk, rfl⟩
      · omega
      · exact Nat.lt_of_le_of_lt (Nat.pow_le_pow_right Nat.two_pos hk) hcap
    rw [doubleUpTo, if_pos hlt]
    apply ih
    rcases hncap with rfl | ⟨k, hk, rfl⟩
    · exact Or.inl rfl
    · rcases Nat.lt_or_eq_of_le hk with hless | rfl
      · refine Or.inr ⟨k + 1, hless, ?_⟩
        have hpow := Nat.pow_le_pow_right Nat.two_pos (Nat.le_sub_one_of_lt hless)
        rw [toSize_of_lt (by omega), Nat.pow_succ]
      · exact Or.inl (by decide)

/-- `hashmap_new` comes out of its loop for at most 2^63 buckets, and for no more. -/
theorem newCap_isSome_iff {cap : Nat} : (newCap cap).isSome = true ↔ cap ≤ 2 ^ 63 := by
  constructor
  · intro hsome
    by_contra hlarge
    have hcap : 2 ^ 63 < cap := Nat.lt_of_not_le hlarge
    rw [newCap, if_neg (by omega),
      doubleUpTo_never hcap 64 16 (Or.inr ⟨4, by decide, by decide⟩)] at hsome
    exact nomatch hsome
  · intro hcap
    obtain ⟨k, hk, -⟩ := newCap_spec hcap
    rw [hk]
    rfl

theorem inBuckets_zero (N : Nat) {buckets : Nat → Bucket α} (h : ∀ p < N, (buckets p).dib = 0) :
    inBuckets N buckets = [] := by
  apply List.filterMap_eq_nil_iff.mpr
  intro p hp
  exact slot_free (h p (List.mem_range.mp hp))

theorem tidy_zero {N : Nat} {buckets : Nat → Bucket α} (h : ∀ p < N, (buckets p).dib = 0) :
    Tidy N buckets where
  homed := by
    intro p hp k hk
    rw [Function.comp_apply, h p hp] at hk
    omega
  probe := by
    intro p hp
    rw [Function.comp_apply, h _ (Nat.mod_lt _ (Nat.zero_lt_of_lt hp))]
    exact Nat.zero_le _

/-- `hashmap_new` returns `NULL` where `malloc` refuses, and an empty map elsewhere. -/
theorem hashmap_new_spec (T : ItemType α) {elsize cap : Nat} (hfit : SizesFit elsize cap)
    (granted : Bool × Bool) :
    (granted ≠ (true, true) ∧ hashmap_new_with_allocator T elsize cap granted = some none) ∨
      ∃ map, hashmap_new_with_allocator T elsize cap granted = some (some map) ∧ Sound T map ∧
        map.entries = [] ∧ cap ≤ map.nbuckets ∧ map.elsize = elsize := by
  obtain ⟨k, hnew, hle, hleast⟩ := newCap_spec hfit.cap_le
  obtain ⟨hpos, hlt⟩ := bucketSize_between hfit.item
  have hfirst : toSize (hashmapSize + bucketSize elsize * 2 : Nat) =
      hashmapSize + bucketSize elsize * 2 :=
    toSize_of_lt (by show 168 + bucketSize elsize * 2 < 2 ^ 64; omega)
  simp only [hashmap_new_with_allocator, hnew, Option.bind_eq_bind, Option.bind_some, hfirst,
    lt_irrefl, if_false]
  obtain ⟨forMap, forBuckets⟩ := granted
  cases forMap with
  | false => exact Or.inl ⟨by simp, rfl⟩
  | true =>
    cases forBuckets with
    | false => exact Or.inl ⟨by simp, rfl⟩
    | true =>
      have hblock : bucketSize elsize * 2 ^ (k + 4) < 2 ^ 64 := by
        rcases hleast with rfl | hsmall
        · omega
        · have hmul := Nat.mul_lt_mul_of_pos_left hsmall (show 0 < bucketSize elsize by omega)
          have hbound := hfit.block
          rw [Nat.mul_comm] at hbound
          exact Nat.lt_of_lt_of_le hmul hbound
      have hnone : ∀ p < 2 ^ (k + 4), ((fun _ => ⟨0, 0, T.zero⟩ : Nat → Bucket α) p).dib = 0 :=
        fun _ _ => rfl
      have hempty := inBuckets_zero _ hnone
      have hgrowat := growat_between ⟨k, rfl⟩ (show 50 ≤ 60 ∧ 60 ≤ 95 by decide)
      refine Or.inr ⟨_, rfl, ?_, hempty, hle, rfl⟩
      exact { pow := ⟨k, rfl⟩, capPow := ⟨k, rfl⟩, cap_le := le_refl _, item := hfit.item
              bucketsz := rfl, block := hblock
              room := le_of_eq (room_of_block (by omega) hblock).symm
              loadfactor := show 50 ≤ 60 ∧ 60 ≤ 95 by decide
              growpower := show 1 ≤ 1 ∧ 1 ≤ 16 by decide
              mask := rfl, growat := hgrowat.1, half := hgrowat.2, shrinkat := rfl
              tidy := tidy_zero hnone
              count := by rw [Hashmap.entries, hempty]; rfl
              short := Nat.two_pow_pos (k + 4)
              few := Nat.two_pow_pos 16
              distinct := by rw [Hashmap.entries, hempty]; exact List.Pairwise.nil }

theorem clip_get_hash (T : ItemType α) (key : α) :
    clip_hash (get_hash T key) = get_hash T key := by
  rw [get_hash, clip_hash, clip_hash, Nat.and_assoc, Nat.and_self]

/-- Beyond that, a block may have room for none of its buckets, and a lookup looks outside. -/
theorem hashmap_new_wraps (T : ItemType α) :
    ∃ map, hashmap_new_with_allocator T 8 (2 ^ 60) (true, true) = some (some map) ∧
      map.nbuckets = 2 ^ 60 ∧ map.room = 0 ∧ ∀ key, hashmap_get T map key = none := by
  obtain ⟨map, hnew, hbuckets, hroom⟩ :
      ∃ map, hashmap_new_with_allocator T 8 (2 ^ 60) (true, true) = some (some map) ∧
        map.nbuckets = 2 ^ 60 ∧ map.room = 0 := by
    have hcap : newCap (2 ^ 60) = some (2 ^ 60) := by decide +kernel
    have hbucket : bucketSize 8 = 16 := by decide
    have hfirst : toSize (hashmapSize + 16 * 2 : Nat) = hashmapSize + 16 * 2 := by decide
    have hblock : toSize (16 * 2 ^ 60 : Nat) = 0 := by decide
    simp only [hashmap_new_with_allocator, hcap, hbucket, hfirst, hblock, Option.bind_eq_bind,
      Option.bind_some, lt_irrefl, if_false]
    exact ⟨_, rfl, rfl, Nat.zero_div 16⟩
  refine ⟨map, hnew, hbuckets, hroom, ?_⟩
  intro key
  have hnone : ∀ fuel i, findLoop T map.room map.mask map.buckets (get_hash T key, key) fuel i =
      none := by
    intro fuel i
    cases fuel with
    | zero => rfl
    | succ fuel =>
      rw [findLoop, bucket_at, hroom, if_neg (Nat.not_lt_zero i)]
      rfl
  rw [hashmap_get, hashmap_get_with_hash, clip_get_hash]
  simp only [hnone, Option.bind_eq_bind, Option.bind_none]

/-! ## Moving the entries to a new map -/

theorem moveBuckets_held {N : Nat} {map2 : Hashmap α} (hr : Ring N map2.room map2.mask)
    (hN : map2.nbuckets = N) (is : List Nat) :
    ∀ buckets : Nat → Bucket α, (∀ i ∈ is, i < map.room) → Tidy N buckets →
      (inBuckets N buckets).length + (is.filterMap (slot ∘ map.buckets)).length < N →
      (inBuckets N buckets).length + (is.filterMap (slot ∘ map.buckets)).length < dibSize →
      ∃ buckets', is.foldlM (moveBucket map map2) buckets = some buckets' ∧ Tidy N buckets' ∧
        (inBuckets N buckets').Perm (is.filterMap (slot ∘ map.buckets) ++ inBuckets N buckets) := by
  induction is with
  | nil => exact fun buckets _ ht _ _ => ⟨buckets, rfl, ht, List.Perm.refl _⟩
  | cons i is ih =>
    intro buckets hin ht hshort hfew
    have hat : bucket_at map.room map.buckets i = some (map.buckets i) :=
      if_pos (hin i List.mem_cons_self)
    have hin' : ∀ i ∈ is, i < map.room := fun i hi => hin i (List.mem_cons_of_mem _ hi)
    by_cases hdib : (map.buckets i).dib = 0
    · have hslot : (slot ∘ map.buckets) i = none := slot_free hdib
      rw [List.filterMap_cons_none hslot] at hshort hfew ⊢
      obtain ⟨buckets', hrun, htidy, hheld⟩ := ih buckets hin' ht hshort hfew
      refine ⟨buckets', ?_, htidy, hheld⟩
      simpa [List.foldlM_cons, moveBucket, hat, hdib] using hrun
    · have hslot : (slot ∘ map.buckets) i = some (map.buckets i).entry := slot_taken hdib
      rw [List.filterMap_cons_some hslot, List.length_cons] at hshort hfew
      rw [List.filterMap_cons_some hslot]
      -- the entry goes in as a new one, since here nothing is the same as anything
      let entry : Bucket α := { map.buckets i with dib := 1 }
      have hpos : 0 < N := by omega
      have hinHand : InHand N buckets entry (entry.hash % N) 0 :=
        inHand_start hpos ht (by omega) (by omega) rfl
      have hless : (inBuckets N buckets).length < N := by omega
      obtain ⟨e, he, hfree⟩ := exists_free_bucket hless
      obtain ⟨s, hs, hse⟩ := exists_steps he (entry.hash % N)
      have hdistinct : Distinct (fun _ _ : Nat × α => false) (entry.entry :: inBuckets N buckets) :=
        List.pairwise_of_forall fun _ _ => rfl
      obtain ⟨buckets₁, hrun₁, htidy₁, hheld₁⟩ :=
        insertLoop_new hr matching_never N buckets entry _ 0 s hinHand
          hdistinct (by rw [hse, hfree]) hs
      have hlen := hheld₁.length_eq
      rw [List.length_cons] at hlen
      obtain ⟨buckets', hrun, htidy, hheld⟩ := ih buckets₁ hin' htidy₁ (by omega) (by omega)
      refine ⟨buckets', ?_, htidy, ?_⟩
      · rw [← hr.masked, ← hN] at hrun₁
        have hmove : moveBucket map map2 buckets i = some buckets₁ := by
          simp only [moveBucket, hat, Option.bind_eq_bind, Option.bind_some, if_neg hdib]
          rw [show (map.buckets i).hash = entry.hash from rfl, hrun₁]
          rfl
        rw [List.foldlM_cons, hmove]
        exact hrun
      · refine hheld.trans ?_
        exact (hheld₁.append_left _).trans List.perm_middle

/-- What a resize leaves. -/
structure Resized (T : ItemType α) (map map' : Hashmap α) (new_cap : Nat) (ok : Bool) : Prop where
  sound : Sound T map'
  entries : map'.entries.Perm map.entries
  count : map'.count = map.count
  oom : map'.oom = map.oom
  refused : ok = false → map' = map
  grown : ok = true → new_cap ≤ map'.nbuckets

theorem resize0_resized (hm : Matching T.same) (hs : Sound T map) {new_cap : Nat}
    (hfit : SizesFit map.elsize new_cap) (hcap : map.cap ≤ new_cap) (hcount : map.count < new_cap)
    (granted : Bool × Bool) :
    ∃ map' ok, resize0 T map new_cap granted = some (map', ok) ∧
      Resized T map map' new_cap ok ∧ (granted = (true, true) → ok = true) := by
  rcases hashmap_new_spec T hfit granted with
    ⟨hrefused, hnew⟩ | ⟨map2, hnew, hs2, hempty, hle, helsize⟩
  · refine ⟨map, false, by simp [resize0, hnew], ?_, fun h => absurd h hrefused⟩
    exact ⟨hs, List.Perm.refl _, rfl, rfl, fun _ => rfl, fun h => absurd h Bool.noConfusion⟩
  · have hheld2 : inBuckets map2.nbuckets map2.buckets = [] := hempty
    have hlen : (List.filterMap (slot ∘ map.buckets) (List.range map.nbuckets)).length =
        map.count := hs.count.symm
    have hfew := hs.few
    have hinside : ∀ i ∈ List.range map.nbuckets, i < map.room :=
      fun i hi => Nat.lt_of_lt_of_le (List.mem_range.mp hi) hs.room
    obtain ⟨buckets, hrun, htidy, hheld⟩ :=
      moveBuckets_held hs2.ring rfl (List.range map.nbuckets) map2.buckets hinside hs2.tidy
        (by rw [hheld2, hlen]; show 0 + map.count < _; omega)
        (by rw [hheld2, hlen]; show 0 + map.count < _; omega)
    rw [hheld2, List.append_nil] at hheld
    have hperm : (inBuckets map2.nbuckets buckets).Perm map.entries := hheld
    have hbucketsz : map.bucketsz = map2.bucketsz := by
      rw [hs.bucketsz, hs2.bucketsz, helsize]
    refine ⟨_, true, by simp only [resize0, hnew, hrun, Option.bind_eq_bind, Option.bind_some]; rfl,
      ?_, fun _ => rfl⟩
    refine ⟨?_, hperm, rfl, rfl, fun h => absurd h Bool.noConfusion, fun _ => hle⟩
    exact { pow := hs2.pow, capPow := hs.capPow, cap_le := le_trans hcap hle, item := hs.item
            bucketsz := hs.bucketsz
            block := by
              show map.bucketsz * map2.nbuckets < 2 ^ 64
              rw [hbucketsz]
              exact hs2.block
            room := by
              show map2.nbuckets ≤ map2.size / map.bucketsz
              rw [hbucketsz]
              exact hs2.room
            loadfactor := hs.loadfactor, growpower := hs.growpower, mask := hs2.mask
            growat := hs2.growat, half := hs2.half, shrinkat := hs2.shrinkat, tidy := htidy
            count := hs.count.trans hperm.length_eq.symm
            short := Nat.lt_of_lt_of_le hcount hle
            few := hs.few
            distinct := hs.distinct.perm hm hperm.symm }

end NoGround
