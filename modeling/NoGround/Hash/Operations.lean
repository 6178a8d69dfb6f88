/-
  Hash/Operations.lean --- what each operation of a map is, on a dictionary.

  A dictionary is what a map holds, in any order.  A lookup answers as the dictionary does; a
  set that is not refused puts its entry into it, a delete takes one out, and both leave the
  map sound, whether or not they resize it.  Going through the items meets each entry once, in
  the order of the buckets.
-/
import NoGround.Hash.Resize

set_option autoImplicit false

namespace NoGround

open NoGround.Lib
open Function (update)

variable {α : Type} {T : ItemType α} {map : Hashmap α} {d : List (Nat × α)}

/-- What the dictionary answers. -/
def answer (T : ItemType α) (d : List (Nat × α)) (key : Nat × α) : Option α :=
  (lookupEntry T.same d key).map (·.2)

/-- Where a key is, in a sound map. -/
theorem Sound.heldAt (hs : Sound T map) {y : Nat × α} {rest : List (Nat × α)}
    (hp : map.entries.Perm (y :: rest)) :
    ∃ p k, HeldAt map.nbuckets map.buckets y.1 p k ∧ (map.buckets p).entry = y ∧
      k < map.nbuckets := by
  have hy : y ∈ map.entries := hp.mem_iff.mpr List.mem_cons_self
  obtain ⟨p, k, hat, hentry⟩ := heldAt_of_mem hy
  have hdib := hs.tidy.dib_le hs.length_lt hat.inside
  rw [hat.dib] at hdib
  have := hs.length_lt
  exact ⟨p, k, hat, hentry, by omega⟩

/-- With bucket `q` in front, whatever the order of the dictionary. -/
theorem perm_at (hd : d.Perm map.entries) {q : Nat} (hq : q < map.nbuckets)
    (hdib : (map.buckets q).dib ≠ 0) :
    d.Perm ((map.buckets q).entry :: others map.nbuckets q (slot ∘ map.buckets)) := by
  have := inBuckets_perm hq map.buckets
  rw [slot_taken hdib] at this
  exact hd.trans this

/-! ## Looking for an item -/

theorem Sound.findLoop (hm : Matching T.same) (hs : Sound T map) (key : Nat × α) :
    ∃ found, findLoop T map.room map.mask map.buckets key map.nbuckets (key.1 &&& map.mask) =
        some found ∧
      match found with
      | none => ∀ x ∈ map.entries, T.same key x = false
      | some q => q < map.nbuckets ∧ (map.buckets q).dib ≠ 0 ∧
          T.same key (map.buckets q).entry = true := by
  rw [hs.ring.masked]
  rcases hs.distinct.cases hm key with ⟨hnot, -, -⟩ | ⟨y, rest, hp, hkey, -, -, -⟩
  · obtain ⟨e, he, hfree⟩ := exists_free_bucket hs.length_lt
    obtain ⟨s, hslt, hse⟩ := exists_steps he (key.1 % map.nbuckets)
    refine ⟨none, ?_, hnot⟩
    exact findLoop_absent hs.ring hnot map.nbuckets _ s
      (Nat.mod_lt _ (Nat.zero_lt_of_lt he)) (by rw [hse, hfree]) hslt
  · obtain ⟨p, k, hat, hentry, hk⟩ := hs.heldAt hp
    rw [← hentry] at hkey
    obtain ⟨q, hq, hdib, hsame, hrun⟩ :=
      findLoop_found hs.ring hs.tidy hat hkey map.nbuckets 0 (Nat.zero_le _) (by omega)
    have hhome : key.1 = y.1 := by
      rw [← hentry]
      exact (ItemType.same_iff.mp hkey).1
    refine ⟨some q, ?_, hq, hdib, hsame⟩
    rw [hhome, ← hrun, Nat.add_zero]

theorem hashmap_get_answer (hm : Matching T.same) (hs : Sound T map) (hd : d.Perm map.entries)
    (key : α) (hash : Nat) :
    hashmap_get_with_hash T map key hash = some (answer T d (clip_hash hash, key)) := by
  obtain ⟨found, hrun, hfound⟩ := hs.findLoop hm (clip_hash hash, key)
  have hdistinct : Distinct T.same d := hs.distinct.perm hm hd.symm
  simp only [hashmap_get_with_hash, hrun, Option.bind_eq_bind, Option.bind_some]
  cases found with
  | none =>
      have hnot : ∀ x ∈ d, T.same (clip_hash hash, key) x = false :=
        fun x hx => hfound x (hd.mem_iff.mp hx)
      rw [answer, lookup_absent hnot]
      rfl
  | some q =>
      obtain ⟨hq, hdib, hsame⟩ := hfound
      rw [answer, lookup_perm hm hdistinct (perm_at hd hq hdib) hsame]
      rfl

/-! ## Putting an item in -/

/-- The insertion into a map that has room for one more entry. -/
theorem Sound.insertLoop (hm : Matching T.same) (hs : Sound T map)
    (hroom : map.count + 1 < map.nbuckets) (hfew : map.count + 1 < dibSize)
    (hd : d.Perm map.entries) (x : Nat × α) :
    ∃ buckets, insertLoop T.same map.room map.mask map.nbuckets map.buckets ⟨x.1, 1, x.2⟩
        (x.1 &&& map.mask) = some (buckets, answer T d x) ∧
      Tidy map.nbuckets buckets ∧
      (inBuckets map.nbuckets buckets).Perm (putEntry T.same d x) := by
  rw [hs.ring.masked]
  have hdistinct : Distinct T.same d := hs.distinct.perm hm hd.symm
  have hcount := hs.count
  have hlen : (inBuckets map.nbuckets map.buckets).length = map.count := hs.count.symm
  have hpos : 0 < map.nbuckets := by omega
  rcases hdistinct.cases hm x with ⟨hnot, hnone, hremove⟩ | ⟨y, rest, hp, hkey, -, -, -⟩
  · have hinHand : InHand map.nbuckets map.buckets ⟨x.1, 1, x.2⟩ (x.1 % map.nbuckets) 0 :=
      inHand_start hpos hs.tidy hs.length_lt (by rw [hlen]; exact hfew) rfl
    obtain ⟨e, he, hfree⟩ := exists_free_bucket hs.length_lt
    obtain ⟨s, hslt, hse⟩ := exists_steps he (x.1 % map.nbuckets)
    have hnew : Distinct T.same (x :: map.entries) :=
      distinct_cons hs.distinct fun y hy => hnot y (hd.mem_iff.mpr hy)
    obtain ⟨buckets, hrun, htidy, hheld⟩ :=
      insertLoop_new hs.ring hm map.nbuckets _ _ _ 0 s hinHand hnew
        (by rw [hse, hfree]) hslt
    refine ⟨buckets, ?_, htidy, ?_⟩
    · rw [answer, hnone]
      exact hrun
    · rw [putEntry, hremove]
      exact hheld.trans (hd.symm.cons _)
  · obtain ⟨p, k, hat, hentry, hk⟩ := hs.heldAt (hd.symm.trans hp)
    rw [← hentry] at hkey
    have hdib := hat.dib_lt hs.tidy hs.length_lt (by rw [hlen]; omega)
    obtain ⟨q, hq, hqdib, hsame, hrun⟩ :=
      insertLoop_found hs.ring hs.tidy hat hdib map.nbuckets ⟨x.1, 1, x.2⟩ 0 hkey rfl
        (Nat.zero_le _) (by omega)
    have hhome : x.1 = y.1 := by
      rw [← hentry]
      exact (ItemType.same_iff.mp hkey).1
    have hperm := perm_at hd hq hqdib
    have hsame : T.same x (map.buckets q).entry = true := hsame
    refine ⟨update map.buckets q { map.buckets q with item := x.2 }, ?_, ?_, ?_⟩
    · rw [answer, lookup_perm hm hdistinct hperm hsame]
      rw [← hhome, Nat.add_zero] at hrun
      exact hrun
    · rw [Tidy, Function.comp_update, Function.comp_update]
      have hsameDib := Function.update_eq_self q (Bucket.dib ∘ map.buckets)
      have hsameHash := Function.update_eq_self q (Bucket.hash ∘ map.buckets)
      simp only [Function.comp_apply] at hsameDib hsameHash ⊢
      rw [hsameDib, hsameHash]
      exact hs.tidy
    · have hnew := inBuckets_update hq map.buckets { map.buckets q with item := x.2 }
      have hentry' : ({ map.buckets q with item := x.2 } : Bucket α).entry = x := by
        have hhash := (ItemType.same_iff.mp hsame).1
        exact Prod.ext hhash.symm rfl
      rw [slot_taken (by exact hqdib), hentry'] at hnew
      exact hnew.trans ((remove_perm hm hdistinct hperm hsame).symm.cons _)

/-- A map with other entries, at the same sizes. -/
theorem Sound.refill (hs : Sound T map) {buckets : Nat → Bucket α} {count : Nat}
    (htidy : Tidy map.nbuckets buckets) (hcount : count = (inBuckets map.nbuckets buckets).length)
    (hshort : count < map.nbuckets) (hfew : count < dibSize)
    (hdistinct : Distinct T.same (inBuckets map.nbuckets buckets)) :
    Sound T { map with buckets := buckets, count := count } :=
  { hs with tidy := htidy, count := hcount, short := hshort, few := hfew, distinct := hdistinct }

/-- A map that is full enough to grow is small, and the sizes it grows to fit. -/
theorem Sound.grown_fits (hs : Sound T map) (hgrow : map.growat ≤ map.count) :
    map.nbuckets * 2 ^ map.growpower < 2 ^ 33 ∧
      SizesFit map.elsize (map.nbuckets * 2 ^ map.growpower) := by
  have hfew : map.count < 2 ^ 16 := hs.few
  have hhalf := hs.half
  have hN : map.nbuckets < 2 ^ 17 := by omega
  have hpower : 2 ^ map.growpower ≤ 2 ^ 16 := Nat.pow_le_pow_right Nat.two_pos hs.growpower.2
  have hnew : map.nbuckets * 2 ^ map.growpower < 2 ^ 33 :=
    Nat.lt_of_le_of_lt (Nat.mul_le_mul_left _ hpower) (by omega)
  have hbucket := (bucketSize_between hs.item).2
  have hblock : 2 * (map.nbuckets * 2 ^ map.growpower) * bucketSize map.elsize ≤
      2 ^ 34 * 2 ^ 30 := Nat.mul_le_mul (by omega) (by omega)
  exact ⟨hnew, hs.item, hblock⟩

/-- The map before the insertion: grown where it is time, or refused. -/
theorem Sound.grow (hm : Matching T.same) (hs : Sound T map) (granted : Bool × Bool) :
    ∃ map' grown, growIfFull T map granted = some (map', grown) ∧ Sound T map' ∧
      map'.entries.Perm map.entries ∧ map'.count = map.count ∧ map'.oom = map.oom ∧
      (grown = true → map'.count + 1 < map'.nbuckets) ∧
      (granted = (true, true) → grown = true) := by
  by_cases hgrow : map.growat ≤ map.count
  · have hdouble : map.nbuckets * 2 ≤ map.nbuckets * 2 ^ map.growpower := by
      apply Nat.mul_le_mul_left
      exact Nat.pow_le_pow_right Nat.two_pos hs.growpower.1
    obtain ⟨hnew, hfit⟩ := hs.grown_fits hgrow
    have hshort := hs.short
    have hcap := hs.cap_le
    have hcap' : map.cap ≤ map.nbuckets * 2 ^ map.growpower := by omega
    obtain ⟨map', ok, hrun, hres, hgranted⟩ :=
      resize0_resized hm hs hfit hcap' (by omega) granted
    refine ⟨map', ok, by rw [growIfFull, if_pos hgrow, toSize_of_lt (by omega), hrun], hres.sound,
      hres.entries, hres.count, hres.oom, ?_, hgranted⟩
    intro hok
    have := hres.grown hok
    rw [hres.count]
    omega
  · have := hs.growat
    exact ⟨map, true, if_neg hgrow, hs, List.Perm.refl _, rfl, rfl, fun _ => by omega,
      fun _ => rfl⟩

/-- What a set does: it is refused and changes nothing that is held, or its entry is put in. -/
theorem hashmap_set_put (hm : Matching T.same) (hs : Sound T map)
    (hfew : map.count + 1 < dibSize) (hd : d.Perm map.entries) (item : α) (hash : Nat)
    (granted : Bool × Bool) :
    ∃ map' old, hashmap_set_with_hash T map item hash granted = some (map', old) ∧
      Sound T map' ∧
      ((map'.oom = true ∧ old = none ∧ d.Perm map'.entries ∧ granted ≠ (true, true)) ∨
        (map'.oom = false ∧ old = answer T d (clip_hash hash, item) ∧
          (putEntry T.same d (clip_hash hash, item)).Perm map'.entries)) := by
  obtain ⟨map₁, grown, hgrow, hs₁, hentries, hcount, hoom, hroom, hgranted⟩ :=
    (hs.withOom false).grow hm granted
  simp only [hashmap_set_with_hash, hgrow, Option.bind_eq_bind, Option.bind_some]
  cases grown with
  | false =>
      refine ⟨{ map₁ with oom := true }, none, rfl, hs₁.withOom true, .inl ⟨rfl, rfl, ?_, ?_⟩⟩
      · exact hd.trans hentries.symm
      · exact fun h => absurd (hgranted h) Bool.false_ne_true
  | true =>
      have hd₁ : d.Perm map₁.entries := hd.trans hentries.symm
      have hcount₁ : map₁.count = map.count := hcount
      have hdistinct : Distinct T.same d := hs.distinct.perm hm hd.symm
      obtain ⟨buckets, hrun, htidy, hheld⟩ :=
        hs₁.insertLoop hm (hroom rfl) (by omega) hd₁ (clip_hash hash, item)
      have hlen : (inBuckets map₁.nbuckets buckets).length =
          d.length + if (answer T d (clip_hash hash, item)).isSome then 0 else 1 := by
        rw [hheld.length_eq, hdistinct.length_put hm, answer, Option.isSome_map]
      have hlen₁ : d.length = map₁.count := by rw [hd₁.length_eq, hs₁.count]
      have hdistinct' := (hdistinct.put hm (clip_hash hash, item)).perm hm hheld.symm
      have hroom' := hroom rfl
      simp only [Option.bind_some, if_true, hrun]
      cases hold : answer T d (clip_hash hash, item) with
      | none =>
          rw [hold, hlen₁] at hlen
          refine ⟨{ map₁ with buckets := buckets, count := map₁.count + 1 }, none, rfl, ?_,
            .inr ⟨hoom, rfl, hheld.symm⟩⟩
          exact hs₁.refill htidy hlen.symm hroom' (by omega) hdistinct'
      | some old =>
          rw [hold, hlen₁] at hlen
          refine ⟨{ map₁ with buckets := buckets }, some old, rfl, ?_,
            .inr ⟨hoom, rfl, hheld.symm⟩⟩
          exact hs₁.refill htidy hlen.symm hs₁.short hs₁.few hdistinct'

/-! ## Taking an item out -/

/-- The smaller of two powers of two is at most half of the larger. -/
theorem Sound.cap_le_half (hs : Sound T map) (h : map.cap < map.nbuckets) :
    map.cap ≤ map.nbuckets / 2 := by
  obtain ⟨j, hj⟩ := hs.capPow
  obtain ⟨k, hk⟩ := hs.pow
  rw [hj, hk] at h ⊢
  have hjk : j + 4 < k + 4 := (Nat.pow_lt_pow_iff_right (by omega)).mp h
  have hle : 2 ^ (j + 4 + 1) ≤ 2 ^ (k + 4) := Nat.pow_le_pow_right Nat.two_pos hjk
  rw [Nat.pow_succ] at hle
  omega

/-- The map after a deletion: smaller if it is time and there is memory, or as it was. -/
theorem Sound.shrink (hm : Matching T.same) (hs : Sound T map) (granted : Bool × Bool) :
    ∃ map', shrinkIfSparse T map granted = some map' ∧ Sound T map' ∧
      map'.entries.Perm map.entries ∧ map'.oom = map.oom := by
  by_cases hsparse : map.cap < map.nbuckets ∧ map.count ≤ map.shrinkat
  · have hlarge := hs.large
    have hcount := hsparse.2
    rw [hs.shrinkat] at hcount
    have hfit : SizesFit map.elsize (map.nbuckets / 2) := by
      refine ⟨hs.item, ?_⟩
      have hle := Nat.mul_le_mul_right (bucketSize map.elsize) (Nat.mul_div_le map.nbuckets 2)
      have hblock := hs.block
      rw [hs.bucketsz, Nat.mul_comm] at hblock
      exact le_trans hle (le_of_lt hblock)
    obtain ⟨map', ok, hrun, hres, -⟩ :=
      resize0_resized hm hs hfit (hs.cap_le_half hsparse.1) (by omega) granted
    exact ⟨map', by rw [shrinkIfSparse, if_pos hsparse, hrun]; rfl, hres.sound, hres.entries,
      hres.oom⟩
  · exact ⟨map, if_neg hsparse, hs, List.Perm.refl _, rfl⟩

/-- Closing the gap at bucket `q`. -/
theorem Sound.shiftLoop (hs : Sound T map) {q : Nat} (hq : q < map.nbuckets)
    (hdib : (map.buckets q).dib ≠ 0) :
    ∃ buckets, shiftLoop map.room map.mask map.nbuckets
        (update map.buckets q { map.buckets q with dib := 0 }) q = some buckets ∧
      Tidy map.nbuckets buckets ∧
      (inBuckets map.nbuckets buckets).Perm (others map.nbuckets q (slot ∘ map.buckets)) := by
  obtain ⟨e, he, hfree⟩ := exists_free_bucket hs.length_lt
  have hne : e ≠ q := by
    rintro rfl
    exact hdib hfree
  obtain ⟨j, hj, hje⟩ := exists_steps he q
  obtain ⟨s, rfl⟩ : ∃ s, j = s + 1 := by
    apply Nat.exists_eq_succ_of_ne_zero
    rintro rfl
    rw [Nat.add_zero, Nat.mod_eq_of_lt hq] at hje
    exact hne hje.symm
  have hlarge := hs.large
  have hhole : Holed map.nbuckets
      (Bucket.dib ∘ update map.buckets q { map.buckets q with dib := 0 })
      (Bucket.hash ∘ update map.buckets q { map.buckets q with dib := 0 }) q := by
    have hsameHash := Function.update_eq_self q (Bucket.hash ∘ map.buckets)
    rw [Function.comp_update, Function.comp_update]
    simp only [Function.comp_apply] at hsameHash ⊢
    rw [hsameHash]
    exact Placed.hole hs.tidy (by omega) hq 0
  obtain ⟨buckets, hrun, htidy, hheld⟩ :=
    shiftLoop_held hs.ring map.nbuckets _ q s hq hhole
      (by rw [hje, Function.update_of_ne hne, hfree]) hj (by omega)
  rw [Function.comp_update, others_update] at hheld
  exact ⟨buckets, hrun, htidy, hheld⟩

theorem hashmap_delete_remove (hm : Matching T.same) (hs : Sound T map)
    (hd : d.Perm map.entries) (key : α) (hash : Nat) (granted : Bool × Bool) :
    ∃ map', hashmap_delete_with_hash T map key hash granted =
        some (map', answer T d (clip_hash hash, key)) ∧ Sound T map' ∧ map'.oom = false ∧
      (removeEntry T.same d (clip_hash hash, key)).Perm map'.entries := by
  obtain ⟨found, hfind, hfound⟩ := hs.findLoop hm (clip_hash hash, key)
  have hdistinct : Distinct T.same d := hs.distinct.perm hm hd.symm
  simp only [hashmap_delete_with_hash, Hashmap.room_withOom, hfind, Option.bind_eq_bind,
    Option.bind_some]
  cases found with
  | none =>
      have hnot : ∀ x ∈ d, T.same (clip_hash hash, key) x = false :=
        fun x hx => hfound x (hd.mem_iff.mp hx)
      rw [answer, lookup_absent hnot, remove_absent hnot]
      exact ⟨_, rfl, hs.withOom false, rfl, hd⟩
  | some q =>
      obtain ⟨hq, hdib, hsame⟩ := hfound
      have hperm := perm_at hd hq hdib
      have hremove := remove_perm hm hdistinct hperm hsame
      obtain ⟨buckets, hshift, htidy, hheld⟩ := hs.shiftLoop hq hdib
      have hheld' := hremove.trans hheld.symm
      have hlen : map.count = (inBuckets map.nbuckets buckets).length + 1 := by
        rw [hheld.length_eq, hs.count, ← hd.length_eq, hperm.length_eq, List.length_cons]
      have hshort := hs.short
      have hfew := hs.few
      have hcount : map.count - 1 = (inBuckets map.nbuckets buckets).length := by omega
      have hshort' : map.count - 1 < map.nbuckets := by omega
      have hsound := (hs.withOom false).refill htidy hcount hshort' (by omega)
        ((hdistinct.remove _).perm hm hheld')
      obtain ⟨map', hshrink, hs', hentries, hoom⟩ := hsound.shrink hm granted
      rw [answer, lookup_perm hm hdistinct hperm hsame]
      simp only [hshift, Option.bind_some, hshrink]
      exact ⟨map', rfl, hs', hoom, hheld'.trans hentries.symm⟩

/-! ## All items -/

/-- What the buckets from `i` on hold. -/
def Hashmap.entriesFrom (map : Hashmap α) (i : Nat) : List (Nat × α) :=
  (List.range' i (map.nbuckets - i)).filterMap (slot ∘ map.buckets)

theorem Hashmap.entriesFrom_zero (map : Hashmap α) : map.entriesFrom 0 = map.entries := by
  rw [entriesFrom, Nat.sub_zero, ← List.range_eq_range']
  rfl

theorem Hashmap.entriesFrom_end {i : Nat} (hi : map.nbuckets ≤ i) : map.entriesFrom i = [] := by
  rw [entriesFrom, Nat.sub_eq_zero_of_le hi]
  rfl

theorem Hashmap.entriesFrom_succ {i : Nat} (hi : i < map.nbuckets) :
    map.entriesFrom i = (slot (map.buckets i)).toList ++ map.entriesFrom (i + 1) := by
  obtain ⟨n, hn⟩ : ∃ n, map.nbuckets - i = n + 1 := ⟨map.nbuckets - i - 1, by omega⟩
  rw [entriesFrom, entriesFrom, hn, show map.nbuckets - (i + 1) = n by omega, List.range'_succ]
  cases h : slot (map.buckets i) with
  | none => rw [List.filterMap_cons_none (show (slot ∘ map.buckets) i = none from h)]; rfl
  | some x => rw [List.filterMap_cons_some (show (slot ∘ map.buckets) i = some x from h)]; rfl

theorem Sound.bucket_at (hs : Sound T map) {i : Nat} (hi : i < map.nbuckets) :
    bucket_at map.room map.buckets i = some (map.buckets i) :=
  hs.ring.bucket_at map.buckets hi

theorem free_elements_items (hs : Sound T map) :
    free_elements T map = some (if T.elfree then map.entries.map (·.2) else []) := by
  have hfold : ∀ (is : List Nat) (freed : List α), (∀ i ∈ is, i < map.nbuckets) →
      is.foldlM (fun freed i => do
        let bucket ← NoGround.bucket_at map.room map.buckets i
        return if bucket.dib = 0 then freed else freed ++ [bucket.item]) freed =
      some (freed ++ (is.filterMap (slot ∘ map.buckets)).map (·.2)) := by
    intro is
    induction is with
    | nil => exact fun freed _ => by rw [List.filterMap_nil, List.map_nil, List.append_nil]; rfl
    | cons i is ih =>
      intro freed hin
      have hat := hs.bucket_at (hin i List.mem_cons_self)
      have hin' : ∀ i ∈ is, i < map.nbuckets := fun i hi => hin i (List.mem_cons_of_mem _ hi)
      rw [List.foldlM_cons, hat]
      by_cases hdib : (map.buckets i).dib = 0
      · have hslot : (slot ∘ map.buckets) i = none := slot_free hdib
        rw [List.filterMap_cons_none hslot, ← ih freed hin']
        simp [hdib]
      · have hslot : (slot ∘ map.buckets) i = some (map.buckets i).entry := slot_taken hdib
        rw [List.filterMap_cons_some hslot, List.map_cons, List.append_cons]
        have := ih (freed ++ [(map.buckets i).item]) hin'
        simpa [hdib, Bucket.entry] using this
  by_cases helfree : T.elfree = true
  · rw [free_elements, if_pos helfree, if_pos helfree,
      hfold _ _ fun i hi => List.mem_range.mp hi]
    rfl
  · rw [free_elements, if_neg helfree, if_neg helfree]

/-- The sizes that a map is cleared to. -/
theorem MapSizes.clearTo (hs : MapSizes map) (update_cap granted : Bool) :
    MapSizes (clearTo { map with count := 0 } update_cap granted) ∧
      (NoGround.clearTo { map with count := 0 } update_cap granted).count = 0 := by
  have hcap := hs.cap_le
  have hcapBlock : map.bucketsz * map.cap < 2 ^ 64 :=
    Nat.lt_of_le_of_lt (Nat.mul_le_mul_left _ hcap) hs.block
  simp only [NoGround.clearTo]
  split
  · exact ⟨{ hs with capPow := hs.pow, cap_le := le_refl _ }, rfl⟩
  · split
    · split
      · have hpos : 0 < map.bucketsz := by
          rw [hs.bucketsz]
          exact Nat.lt_of_lt_of_le (by decide) (bucketSize_between hs.item).1
        exact ⟨{ hs with pow := hs.capPow, cap_le := le_refl _, block := hcapBlock,
                         room := le_of_eq (room_of_block hpos hcapBlock).symm }, rfl⟩
      · exact ⟨{ hs with pow := hs.capPow, cap_le := le_refl _, block := hcapBlock,
                         room := le_trans hcap hs.room }, rfl⟩
    · exact ⟨{ hs with }, rfl⟩

/-- What is zeroed is inside the block, and is all its buckets. -/
theorem MapSizes.zeroed (hs : MapSizes map) :
    toSize (map.bucketsz * map.nbuckets : Nat) = map.bucketsz * map.nbuckets ∧
      map.bucketsz * map.nbuckets ≤ map.size ∧
      ∀ p < map.nbuckets, map.bucketsz * p < map.bucketsz * map.nbuckets := by
  have hpos : 0 < map.bucketsz := by
    rw [hs.bucketsz]
    exact Nat.lt_of_lt_of_le (by decide) (bucketSize_between hs.item).1
  refine ⟨toSize_of_lt hs.block, ?_, fun p hp => Nat.mul_lt_mul_of_pos_left hp hpos⟩
  exact le_trans (Nat.mul_le_mul_left _ hs.room) (Nat.mul_div_le map.size map.bucketsz)

theorem hashmap_clear_empty (hs : Sound T map) (update_cap granted : Bool) :
    ∃ map', hashmap_clear T map update_cap granted =
        some (map', if T.elfree then map.entries.map (·.2) else []) ∧
      Sound T map' ∧ map'.entries = [] := by
  obtain ⟨hto, hnone⟩ := hs.toMapSizes.clearTo update_cap granted
  simp only [hashmap_clear, free_elements_items hs, Option.bind_eq_bind, Option.bind_some]
  generalize NoGround.clearTo { map with count := 0 } update_cap granted = dest at hto hnone
  obtain ⟨hzeroed, hinside, hall⟩ := hto.zeroed
  rw [hzeroed, if_pos hinside]
  have hfree : ∀ p < dest.nbuckets, (if dest.bucketsz * p < dest.bucketsz * dest.nbuckets then
      (⟨0, 0, T.zero⟩ : Bucket α) else dest.buckets p).dib = 0 := by
    intro p hp
    rw [if_pos (hall p hp)]
  have hempty := inBuckets_zero _ hfree
  have hlarge := hto.large
  have hgrowat := growat_between hto.pow hto.loadfactor
  refine ⟨_, rfl, ?_, hempty⟩
  exact { hto with
          mask := rfl, growat := hgrowat.1, half := hgrowat.2, shrinkat := rfl
          tidy := tidy_zero hfree
          count := by
            rw [Hashmap.entries, hempty]
            exact hnone
          short := by
            show dest.count < dest.nbuckets
            omega
          few := by
            show dest.count < dibSize
            rw [hnone]
            exact Nat.two_pow_pos 16
          distinct := by
            rw [Hashmap.entries, hempty]
            exact List.Pairwise.nil }

/-! ## Iterating -/

/-- The loop of `hashmap_iter` goes to the next bucket that is taken. -/
theorem iterLoop_next (hs : Sound T map) (left : Nat) :
    ∀ i, map.nbuckets - i < left →
      (map.entriesFrom i = [] ∧ iterLoop map left i = some none) ∨
      ∃ entry i', map.entriesFrom i = entry :: map.entriesFrom i' ∧ i < i' ∧
        i' ≤ map.nbuckets ∧ iterLoop map left i = some (some (entry.2, i')) := by
  induction left with
  | zero => exact fun _ h => absurd h (Nat.not_lt_zero _)
  | succ left ih =>
    intro i hleft
    by_cases hi : map.nbuckets ≤ i
    · exact .inl ⟨Hashmap.entriesFrom_end hi, by rw [iterLoop, if_pos hi]⟩
    · have hlt : i < map.nbuckets := Nat.lt_of_not_le hi
      have hat := hs.bucket_at hlt
      have hfrom := Hashmap.entriesFrom_succ hlt
      by_cases hdib : (map.buckets i).dib = 0
      · rw [slot_free hdib] at hfrom
        have hloop : iterLoop map (left + 1) i = iterLoop map left (i + 1) := by
          rw [iterLoop, if_neg hi, hat]
          simp [hdib]
        rw [hfrom, hloop]
        rcases ih (i + 1) (by omega) with h | ⟨entry, i', hentry, hi', hle, hrun⟩
        · exact .inl h
        · exact .inr ⟨entry, i', hentry, by omega, hle, hrun⟩
      · rw [slot_taken hdib] at hfrom
        refine .inr ⟨(map.buckets i).entry, i + 1, hfrom, by omega, by omega, ?_⟩
        rw [iterLoop, if_neg hi, hat]
        simp [hdib, Bucket.entry]

theorem iterAll_items (hs : Sound T map) (fuel : Nat) :
    ∀ i, map.nbuckets - i < fuel →
      iterAll map fuel i = some ((map.entriesFrom i).map (·.2)) := by
  induction fuel with
  | zero => exact fun _ h => absurd h (Nat.not_lt_zero _)
  | succ fuel ih =>
    intro i hfuel
    rcases iterLoop_next hs (map.nbuckets + 1) i (by omega) with
      ⟨hnil, hrun⟩ | ⟨entry, i', hentry, hi', hle, hrun⟩
    · rw [iterAll, hashmap_iter, hrun, hnil]
      rfl
    · rw [iterAll, hashmap_iter, hrun, hentry]
      simp only [Option.bind_eq_bind, Option.bind_some, ih i' (by omega)]
      rfl

/-- `iter` called with each item in turn until it says to stop. -/
def scanItems {σ : Type} (iter : α → σ → Bool × σ) : List α → σ → Bool × σ
  | [], udata => (true, udata)
  | item :: items, udata =>
      if (iter item udata).1 then scanItems iter items (iter item udata).2
      else (false, (iter item udata).2)

theorem scanFrom_items (hs : Sound T map) {σ : Type} (iter : α → σ → Bool × σ) (left : Nat) :
    ∀ i udata, i + left = map.nbuckets →
      scanFrom map iter left i udata =
        some (scanItems iter ((map.entriesFrom i).map (·.2)) udata) := by
  induction left with
  | zero =>
    intro i udata hi
    rw [Hashmap.entriesFrom_end (by omega)]
    rfl
  | succ left ih =>
    intro i udata hi
    have hlt : i < map.nbuckets := by omega
    have hat := hs.bucket_at hlt
    rw [Hashmap.entriesFrom_succ hlt, scanFrom, hat]
    by_cases hdib : (map.buckets i).dib = 0
    · rw [slot_free hdib]
      simpa [hdib] using ih (i + 1) udata (by omega)
    · rw [slot_taken hdib]
      by_cases hgo : (iter (map.buckets i).item udata).1 = true
      · have := ih (i + 1) (iter (map.buckets i).item udata).2 (by omega)
        simpa [hdib, hgo, scanItems, Bucket.entry] using this
      · simp [hdib, hgo, scanItems, Bucket.entry]

end NoGround
