/-
  Hash/Items.lean --- the items of a map: who has them, where they are, who meets them.

  An item that a set takes is the map's until a set or a delete hands it back or it is given to
  `elfree`.  Over the life of a map every item that was taken is handed back or freed, once
  (`hashmap_owned`).  In every state of a run each item is a walk over taken buckets away from
  its home, shorter than the number of items, and a lookup looks at one bucket more than that
  at most (`hashmap_layout`).  A scan and a loop over the cursor meet the same items, all of
  them and in the same order (`hashmap_visits`).
-/
import NoGround.Hash.Runs

set_option autoImplicit false

namespace NoGround

open NoGround.Lib

variable {α : Type} {T : ItemType α} {map : Hashmap α}

/-! ## Who has an item -/

/-- The items the map took with a call. -/
def takenBy : MapOp α → MapAnswer α → List α
  | .set item _ _, .item _ => [item]
  | _, _ => []

/-- The items the map handed back or freed with a call. -/
def givenBy : MapOp α → MapAnswer α → List α
  | .set _ _ _, .item old => old.toList
  | .delete _ _ _, .item old => old.toList
  | .clear _ _, .items freed => freed
  | _, _ => []

/-- What is handed over in a run. -/
def overRun (f : MapOp α → MapAnswer α → List α) (ops : List (MapOp α))
    (answers : List (MapAnswer α)) : List α :=
  (ops.zip answers).flatMap fun p => f p.1 p.2

/-- What is looked up and what is left when it is taken out, without their hashes. -/
theorem answer_append_remove (T : ItemType α) (d : List (Nat × α)) (key : Nat × α) :
    (d.map (·.2)).Perm
      ((answer T d key).toList ++ (removeEntry T.same d key).map (·.2)) := by
  have h := (lookup_append_remove T.same d key).map (·.2)
  rw [List.map_append] at h
  rw [answer]
  cases hfind : lookupEntry T.same d key <;> rw [hfind] at h <;> exact h

theorem DictStep.owned (helfree : T.elfree = true) {op : MapOp α} {a : MapAnswer α}
    {d d' : List (Nat × α)} (h : DictStep T op d a d') :
    (takenBy op a ++ d.map (·.2)).Perm (givenBy op a ++ d'.map (·.2)) := by
  cases h with
  | set _ item hash _ =>
      have hkey : (keyOf T item hash).2 = item := by cases hash <;> rfl
      have hold := (answer_append_remove T d (keyOf T item hash)).cons item
      rw [takenBy, givenBy, putEntry, List.map_cons, hkey]
      exact hold.trans List.perm_middle.symm
  | delete _ key hash _ => exact answer_append_remove T d (keyOf T key hash)
  | clear _ _ _ _ hfreed =>
      rw [if_pos helfree] at hfreed
      simpa [takenBy, givenBy] using hfreed.symm
  | refused | get | count | probe | iterate | growBy | loadFactor => exact List.Perm.refl _

theorem DictRun.owned (helfree : T.elfree = true) {ops : List (MapOp α)}
    {answers : List (MapAnswer α)} {d d' : List (Nat × α)} (h : DictRun T ops d answers d') :
    (overRun takenBy ops answers ++ d.map (·.2)).Perm
      (overRun givenBy ops answers ++ d'.map (·.2)) := by
  induction h with
  | nil d => exact List.Perm.refl _
  | @cons op ops d a d₁ answers d₂ hstep hrun ih =>
    simp only [overRun, List.zip_cons_cons, List.flatMap_cons, List.append_assoc] at ih ⊢
    -- what the call takes is set aside, exchanged, and what it gives comes to the front
    have hcall := (hstep.owned helfree).append_left
      ((ops.zip answers).flatMap fun p => takenBy p.1 p.2)
    have hrest := ih.append_left (givenBy op a)
    have haside := List.perm_append_comm_assoc (takenBy op a)
      ((ops.zip answers).flatMap fun p => takenBy p.1 p.2) (d.map (·.2))
    have hfront := List.perm_append_comm_assoc
      ((ops.zip answers).flatMap fun p => takenBy p.1 p.2) (givenBy op a) (d₁.map (·.2))
    exact haside.trans (hcall.trans (hfront.trans hrest))

/-- Every item that the map took is handed back or freed, once, when the map is freed at the
end of a run. -/
theorem hashmap_owned (hT : T.Comparable) (helfree : T.elfree = true) {elsize cap : Nat}
    {granted : Bool × Bool} (hfit : SizesFit elsize cap)
    (hnew : hashmap_new_with_allocator T elsize cap granted = some (some map))
    (ops : List (MapOp α)) (hsmall : staysSmall T map ops = true) :
    ∃ map' answers freed, runMap T map ops = some (map', answers) ∧
      hashmap_free T map' = some freed ∧
      (overRun takenBy ops answers).Perm (overRun givenBy ops answers ++ freed) := by
  obtain ⟨map', answers, d', hrun, hs', hdict, hd'⟩ := runMap_new hT hfit hnew ops hsmall
  have howned := hdict.owned helfree
  rw [List.map_nil, List.append_nil] at howned
  refine ⟨map', answers, map'.entries.map (·.2), hrun, ?_, ?_⟩
  · rw [hashmap_free, free_elements_items hs', if_pos helfree]
  · exact howned.trans ((hd'.map _).append_left _)

/-- The items of `growAndShrink` without its last clear: two are freed with the map. -/
theorem hashmap_owned_frees_the_rest :
    ∃ map' answers freed,
      runMap keyedItems emptyMap (growAndShrink.take 24) = some (map', answers) ∧
      hashmap_free keyedItems map' = some freed ∧
      (overRun takenBy (growAndShrink.take 24) answers).Perm
        (overRun givenBy (growAndShrink.take 24) answers ++ freed) :=
  hashmap_owned keyedItems_comparable rfl emptyMap_fits emptyMap_new (growAndShrink.take 24)
    (by decide +kernel)

/-! ## Where an item is -/

theorem findLoop_mono {room mask : Nat} {buckets : Nat → Bucket α} {key : Nat × α}
    {r : Option Nat} (fuel : Nat) :
    ∀ fuel' i, fuel ≤ fuel' → findLoop T room mask buckets key fuel i = some r →
      findLoop T room mask buckets key fuel' i = some r := by
  induction fuel with
  | zero => exact fun _ _ _ h => absurd h (Option.some_ne_none r).symm
  | succ fuel ih =>
    intro fuel' i hle h
    obtain ⟨fuel', rfl⟩ : ∃ n, fuel' = n + 1 := Nat.exists_eq_succ_of_ne_zero (by omega)
    rw [findLoop] at h ⊢
    cases hat : bucket_at room buckets i with
    | none =>
        rw [hat] at h
        exact absurd h (Option.some_ne_none r).symm
    | some bucket =>
        rw [hat] at h
        simp only [Option.bind_eq_bind, Option.bind_some] at h ⊢
        split
        · rename_i hdib
          rwa [if_pos hdib] at h
        · rename_i hdib
          rw [if_neg hdib] at h
          split
          · rename_i hsame
            rwa [if_pos hsame] at h
          · rename_i hsame
            rw [if_neg hsame] at h
            exact ih fuel' _ (by omega) h

/-- A lookup looks at no more buckets than there are items, and one. -/
theorem Sound.findLoop_short (hm : Matching T.same) (hs : Sound T map) (key : Nat × α) :
    NoGround.findLoop T map.room map.mask map.buckets key (map.count + 1) (key.1 &&& map.mask) =
      NoGround.findLoop T map.room map.mask map.buckets key map.nbuckets
        (key.1 &&& map.mask) := by
  have hshort := hs.short
  have hlen : (inBuckets map.nbuckets map.buckets).length = map.count := hs.count.symm
  rw [hs.ring.masked]
  rcases hs.distinct.cases hm key with ⟨hnot, -, -⟩ | ⟨y, rest, hp, hkey, -, -, -⟩
  · have hcard : (occupied map.nbuckets (Bucket.dib ∘ map.buckets)).card = map.count := by
      rw [card_occupied, hlen]
    obtain ⟨s, hsle, hfree⟩ := exists_near_free (by rw [hcard]; exact hshort)
      (key.1 % map.nbuckets)
    rw [hcard] at hsle
    have hlt : key.1 % map.nbuckets < map.nbuckets := Nat.mod_lt _ (by omega)
    rw [findLoop_absent hs.ring hnot _ _ s hlt hfree (by omega),
      findLoop_absent hs.ring hnot _ _ s hlt hfree (by omega)]
  · obtain ⟨p, k, hat, hentry, -⟩ := hs.heldAt hp
    rw [← hentry] at hkey
    have hdib := hs.tidy.dib_le hs.length_lt hat.inside
    rw [hat.dib, hlen] at hdib
    have hhome : key.1 = y.1 := by
      rw [← hentry]
      exact (ItemType.same_iff.mp hkey).1
    obtain ⟨q, -, -, -, hrun⟩ :=
      findLoop_found hs.ring hs.tidy hat hkey (map.count + 1) 0 (Nat.zero_le _) (by omega)
    rw [Nat.add_zero y.1] at hrun
    rw [hhome, hrun, findLoop_mono _ _ _ (by omega) hrun]

/-- In every state of a run the sizes fit, each item is a walk over taken buckets from its
home, and a lookup is no longer than the number of items. -/
theorem hashmap_layout (hT : T.Comparable) {elsize cap : Nat} {granted : Bool × Bool}
    (hfit : SizesFit elsize cap)
    (hnew : hashmap_new_with_allocator T elsize cap granted = some (some map))
    (ops : List (MapOp α)) (hsmall : staysSmall T map ops = true) :
    ∃ map' answers, runMap T map ops = some (map', answers) ∧
      (∃ k, map'.nbuckets = 2 ^ (k + 4)) ∧ map'.cap ≤ map'.nbuckets ∧
      map'.nbuckets ≤ map'.room ∧ map'.count < map'.nbuckets ∧
      (∀ p < map'.nbuckets, ∀ k, (map'.buckets p).dib = k + 1 →
        ((map'.buckets p).hash + k) % map'.nbuckets = p ∧ k < map'.count ∧
        ∀ j ≤ k, j < (map'.buckets (((map'.buckets p).hash + j) % map'.nbuckets)).dib) ∧
      ∀ key, findLoop T map'.room map'.mask map'.buckets key (map'.count + 1)
          (key.1 &&& map'.mask) =
        findLoop T map'.room map'.mask map'.buckets key map'.nbuckets
          (key.1 &&& map'.mask) := by
  obtain ⟨map', answers, d', hrun, hs', -, -⟩ := runMap_new hT hfit hnew ops hsmall
  refine ⟨map', answers, hrun, hs'.pow, hs'.cap_le, hs'.room, hs'.short, ?_,
    hs'.findLoop_short hT.matching⟩
  intro p hp k hk
  have hat : HeldAt map'.nbuckets map'.buckets (map'.buckets p).hash p k := ⟨hp, hk, rfl⟩
  have hdib := hs'.tidy.dib_le hs'.length_lt hp
  have hcount : map'.count = (inBuckets map'.nbuckets map'.buckets).length := hs'.count
  rw [hk] at hdib
  exact ⟨hat.end_eq hs'.tidy, by omega, fun j hj => hat.reach hs'.tidy hj⟩

/-- The state after the growth and three exchanges of `growAndShrink`. -/
theorem hashmap_layout_grown :
    ∃ map' answers, runMap keyedItems emptyMap (growAndShrink.take 12) = some (map', answers) ∧
      (∃ k, map'.nbuckets = 2 ^ (k + 4)) ∧ map'.cap ≤ map'.nbuckets ∧
      map'.nbuckets ≤ map'.room ∧ map'.count < map'.nbuckets ∧
      (∀ p < map'.nbuckets, ∀ k, (map'.buckets p).dib = k + 1 →
        ((map'.buckets p).hash + k) % map'.nbuckets = p ∧ k < map'.count ∧
        ∀ j ≤ k, j < (map'.buckets (((map'.buckets p).hash + j) % map'.nbuckets)).dib) ∧
      ∀ key, findLoop keyedItems map'.room map'.mask map'.buckets key (map'.count + 1)
          (key.1 &&& map'.mask) =
        findLoop keyedItems map'.room map'.mask map'.buckets key map'.nbuckets
          (key.1 &&& map'.mask) :=
  hashmap_layout keyedItems_comparable emptyMap_fits emptyMap_new (growAndShrink.take 12)
    (by decide +kernel)

/-! ## Who meets an item -/

/-- In every state of a run, the cursor and a scan meet the items of the dictionary, each
once and in one order, and the scan goes on until it is told to stop. -/
theorem hashmap_visits (hT : T.Comparable) {elsize cap : Nat} {granted : Bool × Bool}
    (hfit : SizesFit elsize cap)
    (hnew : hashmap_new_with_allocator T elsize cap granted = some (some map))
    (ops : List (MapOp α)) (hsmall : staysSmall T map ops = true) :
    ∃ map' answers d' items, runMap T map ops = some (map', answers) ∧
      DictRun T ops [] answers d' ∧ items.Perm (d'.map (·.2)) ∧
      iterAll map' (map'.nbuckets + 1) 0 = some items ∧
      ∀ {σ : Type} (iter : α → σ → Bool × σ) (udata : σ),
        hashmap_scan map' iter udata = some (scanItems iter items udata) := by
  obtain ⟨map', answers, d', hrun, hs', hdict, hd'⟩ := runMap_new hT hfit hnew ops hsmall
  refine ⟨map', answers, d', map'.entries.map (·.2), hrun, hdict, (hd'.symm.map _), ?_, ?_⟩
  · rw [iterAll_items hs' _ 0 (by omega), Hashmap.entriesFrom_zero]
  · intro σ iter udata
    rw [hashmap_scan, scanFrom_items hs' iter _ 0 udata (Nat.zero_add _),
      Hashmap.entriesFrom_zero]

/-- Two items are left in the map. -/
theorem hashmap_visits_two_items :
    ∃ map' answers d' items,
      runMap keyedItems emptyMap (growAndShrink.take 22) = some (map', answers) ∧
      DictRun keyedItems (growAndShrink.take 22) [] answers d' ∧ items.Perm (d'.map (·.2)) ∧
      iterAll map' (map'.nbuckets + 1) 0 = some items ∧
      ∀ {σ : Type} (iter : Nat × Nat → σ → Bool × σ) (udata : σ),
        hashmap_scan map' iter udata = some (scanItems iter items udata) :=
  hashmap_visits keyedItems_comparable emptyMap_fits emptyMap_new (growAndShrink.take 22)
    (by decide +kernel)

end NoGround
