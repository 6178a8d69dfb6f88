/-
  Hash/Runs.lean --- a map over any run of calls.

  `DictStep` says what each call does to a dictionary and what it answers: a set that `malloc`
  did not serve may be refused, and everything else is settled up to the order of the items.
  A run of calls on a map is a run on the dictionary (`hashmap_dictionary`), so it ends and
  stays inside its buckets.  From that follows where every item goes (`hashmap_owned`), how
  far an item can be from its home (`hashmap_layout`), and what the ways to go through all
  items agree on (`hashmap_visits`).

  The distance of an entry has 16 bits.  With fewer than 2^16 entries no distance needs more,
  whatever the hashes are; that a set is only made below that is `staysSmall`.
-/
import NoGround.Hash.Operations

set_option autoImplicit false

namespace NoGround

open NoGround.Lib

variable {α : Type} {T : ItemType α} {map : Hashmap α}

/-! ## Calls -/

/-- A call; without a hash it is the function that takes the hash of the item. -/
inductive MapOp (α : Type) where
  | set (item : α) (hash : Option Nat) (granted : Bool × Bool)
  | get (key : α) (hash : Option Nat)
  | delete (key : α) (hash : Option Nat) (granted : Bool × Bool)
  | clear (update_cap granted : Bool)
  | count
  | probe (position : Nat)
  | iterate
  | growBy (power : Nat)
  | loadFactor (percent : Nat)

inductive MapAnswer (α : Type) where
  | item (o : Option α)
  /-- no item, and `hashmap_oom` says why -/
  | oom
  | items (l : List α)
  | number (n : Nat)
  | done
  deriving DecidableEq

/-- The hash and the item a call is about. -/
def keyOf (T : ItemType α) (item : α) : Option Nat → Nat × α
  | none => (get_hash T item, item)
  | some hash => (clip_hash hash, item)

def MapOp.call (T : ItemType α) (map : Hashmap α) :
    MapOp α → Option (Hashmap α × MapAnswer α)
  | .set item hash granted => do
      let (map, old) ← match hash with
        | none => hashmap_set T map item granted
        | some hash => hashmap_set_with_hash T map item hash granted
      return (map, if hashmap_oom map then .oom else .item old)
  | .get key hash => do
      let found ← match hash with
        | none => hashmap_get T map key
        | some hash => hashmap_get_with_hash T map key hash
      return (map, .item found)
  | .delete key hash granted => do
      let (map, old) ← match hash with
        | none => hashmap_delete T map key granted
        | some hash => hashmap_delete_with_hash T map key hash granted
      return (map, .item old)
  | .clear update_cap granted => do
      let (map, freed) ← hashmap_clear T map update_cap granted
      return (map, .items freed)
  | .count => some (map, .number (hashmap_count map))
  | .probe position => do
      let found ← hashmap_probe map position
      return (map, .item found)
  | .iterate => do
      let items ← iterAll map (map.nbuckets + 1) 0
      return (map, .items items)
  | .growBy power => some (hashmap_set_grow_by_power map power, .done)
  | .loadFactor percent => some (hashmap_set_load_factor map percent, .done)

def runMap (T : ItemType α) : Hashmap α → List (MapOp α) →
    Option (Hashmap α × List (MapAnswer α))
  | map, [] => some (map, [])
  | map, op :: ops => do
      let (map, a) ← op.call T map
      let (map, answers) ← runMap T map ops
      return (map, a :: answers)

/-- Whether there are few enough items for the call. -/
def MapOp.fits (map : Hashmap α) : MapOp α → Bool
  | .set _ _ _ => decide (map.count + 1 < dibSize)
  | _ => true

/-- No set of the run is made where there are too many items. -/
def staysSmall (T : ItemType α) : Hashmap α → List (MapOp α) → Bool
  | _, [] => true
  | map, op :: ops =>
      op.fits map && match op.call T map with
        | none => true
        | some (map, _) => staysSmall T map ops

/-! ## The dictionary -/

/-- What a call does to a dictionary. -/
inductive DictStep (T : ItemType α) :
    MapOp α → List (Nat × α) → MapAnswer α → List (Nat × α) → Prop
  | set (d item hash granted) :
      DictStep T (.set item hash granted) d (.item (answer T d (keyOf T item hash)))
        (putEntry T.same d (keyOf T item hash))
  | refused (d item hash granted) (h : granted ≠ (true, true)) :
      DictStep T (.set item hash granted) d .oom d
  | get (d key hash) : DictStep T (.get key hash) d (.item (answer T d (keyOf T key hash))) d
  | delete (d key hash granted) :
      DictStep T (.delete key hash granted) d (.item (answer T d (keyOf T key hash)))
        (removeEntry T.same d (keyOf T key hash))
  | clear (d : List (Nat × α)) (update_cap granted freed)
      (h : freed.Perm (if T.elfree then d.map (·.2) else [])) :
      DictStep T (.clear update_cap granted) d (.items freed) []
  | count (d : List (Nat × α)) : DictStep T .count d (.number d.length) d
  | probe (d : List (Nat × α)) (position o) (h : ∀ x, o = some x → x ∈ d.map (·.2)) :
      DictStep T (.probe position) d (.item o) d
  | iterate (d : List (Nat × α)) (items) (h : items.Perm (d.map (·.2))) :
      DictStep T .iterate d (.items items) d
  | growBy (d power) : DictStep T (.growBy power) d .done d
  | loadFactor (d percent) : DictStep T (.loadFactor percent) d .done d

inductive DictRun (T : ItemType α) :
    List (MapOp α) → List (Nat × α) → List (MapAnswer α) → List (Nat × α) → Prop
  | nil (d) : DictRun T [] d [] d
  | cons {op ops d a d₁ answers d₂} (h : DictStep T op d a d₁)
      (hrun : DictRun T ops d₁ answers d₂) : DictRun T (op :: ops) d (a :: answers) d₂

/-! ## One call -/

theorem hashmap_probe_item (hs : Sound T map) (position : Nat) :
    ∃ o, hashmap_probe map position = some o ∧ ∀ x, o = some x → x ∈ map.entries.map (·.2) := by
  have hlt : position % map.nbuckets < map.nbuckets :=
    Nat.mod_lt _ (by have := hs.large; omega)
  rw [hashmap_probe, hs.ring.masked, hs.bucket_at hlt]
  refine ⟨_, rfl, ?_⟩
  intro x hx
  by_cases hdib : (map.buckets (position % map.nbuckets)).dib = 0
  · rw [if_pos hdib] at hx
    exact absurd hx (Option.some_ne_none x).symm
  · rw [if_neg hdib, Option.some.injEq] at hx
    exact List.mem_map.mpr ⟨_, mem_inBuckets hlt hdib, hx⟩

theorem clamp_load_factor_between (percent : Nat) :
    50 ≤ clamp_load_factor percent ∧ clamp_load_factor percent ≤ 95 := by
  simp only [clamp_load_factor]
  split
  · omega
  · split <;> omega

theorem Sound.setLoadFactor (hs : Sound T map) (percent : Nat) :
    Sound T (hashmap_set_load_factor map percent) :=
  have hload := clamp_load_factor_between percent
  have hgrowat := growat_between hs.pow hload
  { hs with loadfactor := hload, growat := hgrowat.1, half := hgrowat.2 }

theorem Sound.setGrowByPower (hs : Sound T map) (power : Nat) :
    Sound T (hashmap_set_grow_by_power map power) :=
  { hs with
    growpower := by
      show 1 ≤ (if power < 1 then 1 else if 16 < power then 16 else power) ∧
        (if power < 1 then 1 else if 16 < power then 16 else power) ≤ 16
      split
      · omega
      · split <;> omega }

/-- A call on a sound map returns, and does what it does to the dictionary. -/
theorem call_dictStep {d : List (Nat × α)} (hT : T.Comparable) (hs : Sound T map)
    (op : MapOp α) (hfits : op.fits map = true) (hd : d.Perm map.entries) :
    ∃ map' a d', op.call T map = some (map', a) ∧ Sound T map' ∧ DictStep T op d a d' ∧
      d'.Perm map'.entries := by
  have hm := hT.matching
  cases op with
  | set item hash granted =>
      have hfew : map.count + 1 < dibSize := of_decide_eq_true hfits
      obtain ⟨h, hkey, hcall⟩ : ∃ h, keyOf T item hash = (clip_hash h, item) ∧
          (MapOp.set item hash granted).call T map = (do
            let (map, old) ← hashmap_set_with_hash T map item h granted
            return (map, if hashmap_oom map then .oom else .item old)) := by
        cases hash with
        | none => exact ⟨get_hash T item, by rw [clip_get_hash]; rfl, rfl⟩
        | some h => exact ⟨h, rfl, rfl⟩
      obtain ⟨map', old, hrun, hs', hset⟩ := hashmap_set_put hm hs hfew hd item h granted
      rw [hcall, hrun]
      rcases hset with ⟨hoom, -, hd', hnot⟩ | ⟨hoom, rfl, hd'⟩
      · refine ⟨map', .oom, d, ?_, hs', .refused d item hash granted hnot, hd'⟩
        simp [hashmap_oom, hoom]
      · refine ⟨map', .item (answer T d (clip_hash h, item)), _, ?_, hs', ?_, hd'⟩
        · simp [hashmap_oom, hoom]
        · rw [← hkey]
          exact .set d item hash granted
  | get key hash =>
      refine ⟨map, .item (answer T d (keyOf T key hash)), d, ?_, hs, .get d key hash, hd⟩
      cases hash with
      | none =>
          have := hashmap_get_answer hm hs hd key (get_hash T key)
          rw [clip_get_hash] at this
          simp only [MapOp.call, hashmap_get, this]
          rfl
      | some h =>
          simp only [MapOp.call, hashmap_get_answer hm hs hd key h]
          rfl
  | delete key hash granted =>
      obtain ⟨h, hkey, hcall⟩ : ∃ h, keyOf T key hash = (clip_hash h, key) ∧
          (MapOp.delete key hash granted).call T map = (do
            let (map, old) ← hashmap_delete_with_hash T map key h granted
            return (map, .item old)) := by
        cases hash with
        | none => exact ⟨get_hash T key, by rw [clip_get_hash]; rfl, rfl⟩
        | some h => exact ⟨h, rfl, rfl⟩
      obtain ⟨map', hrun, hs', -, hd'⟩ := hashmap_delete_remove hm hs hd key h granted
      rw [hcall, hrun]
      refine ⟨map', .item (answer T d (clip_hash h, key)), _, rfl, hs', ?_, hd'⟩
      rw [← hkey]
      exact .delete d key hash granted
  | clear update_cap granted =>
      obtain ⟨map', hrun, hs', hempty⟩ := hashmap_clear_empty hs update_cap granted
      refine ⟨map', _, [], by simp only [MapOp.call, hrun]; rfl, hs', .clear d _ _ _ ?_, ?_⟩
      · split
        · exact hd.symm.map _
        · exact List.Perm.refl _
      · rw [hempty]
  | count =>
      refine ⟨map, .number d.length, d, ?_, hs, .count d, hd⟩
      rw [hd.length_eq, ← hs.count]
      rfl
  | probe position =>
      obtain ⟨o, hrun, hmem⟩ := hashmap_probe_item hs position
      refine ⟨map, .item o, d, by simp only [MapOp.call, hrun]; rfl, hs, .probe d _ _ ?_, hd⟩
      intro x hx
      exact (hd.map _).mem_iff.mpr (hmem x hx)
  | iterate =>
      have hrun := iterAll_items hs (map.nbuckets + 1) 0 (by omega)
      rw [Hashmap.entriesFrom_zero] at hrun
      exact ⟨map, _, d, by simp only [MapOp.call, hrun]; rfl, hs, .iterate d _ (hd.symm.map _),
        hd⟩
  | growBy power => exact ⟨_, .done, d, rfl, hs.setGrowByPower power, .growBy d power, hd⟩
  | loadFactor percent =>
      exact ⟨_, .done, d, rfl, hs.setLoadFactor percent, .loadFactor d percent, hd⟩

/-! ## Every run -/

theorem runMap_dictRun (hT : T.Comparable) (ops : List (MapOp α)) :
    ∀ {map : Hashmap α} {d : List (Nat × α)}, Sound T map → staysSmall T map ops = true →
      d.Perm map.entries →
      ∃ map' answers d', runMap T map ops = some (map', answers) ∧ Sound T map' ∧
        DictRun T ops d answers d' ∧ d'.Perm map'.entries := by
  induction ops with
  | nil => exact fun {map d} hs _ hd => ⟨map, [], d, rfl, hs, .nil d, hd⟩
  | cons op ops ih =>
    intro map d hs hsmall hd
    rw [staysSmall, Bool.and_eq_true] at hsmall
    obtain ⟨map₁, a, d₁, hcall, hs₁, hstep, hd₁⟩ := call_dictStep hT hs op hsmall.1 hd
    have hsmall₁ := hsmall.2
    rw [hcall] at hsmall₁
    obtain ⟨map', answers, d', hrun, hs', hdict, hd'⟩ := ih hs₁ hsmall₁ hd₁
    refine ⟨map', a :: answers, d', ?_, hs', .cons hstep hdict, hd'⟩
    rw [runMap, hcall]
    simp only [Option.bind_eq_bind, Option.bind_some, hrun]
    rfl

theorem runMap_new (hT : T.Comparable) {elsize cap : Nat} {granted : Bool × Bool}
    (hfit : SizesFit elsize cap)
    (hnew : hashmap_new_with_allocator T elsize cap granted = some (some map))
    (ops : List (MapOp α)) (hsmall : staysSmall T map ops = true) :
    ∃ map' answers d', runMap T map ops = some (map', answers) ∧ Sound T map' ∧
      DictRun T ops [] answers d' ∧ d'.Perm map'.entries := by
  obtain ⟨hs, hempty⟩ : Sound T map ∧ map.entries = [] := by
    rcases hashmap_new_spec T hfit granted with ⟨-, hnone⟩ | ⟨map₁, hsome, hs, hempty, -⟩
    · rw [hnone] at hnew
      exact nomatch hnew
    · rw [hsome] at hnew
      obtain rfl : map₁ = map := Option.some.inj (Option.some.inj hnew)
      exact ⟨hs, hempty⟩
  exact runMap_dictRun hT ops hs hsmall (by rw [hempty])

/-- Every run of calls on a new map returns, and answers as a dictionary does: where the sizes
fit, to compare equal is symmetric and transitive, and there are few enough items for every
set. -/
theorem hashmap_dictionary (hT : T.Comparable) {elsize cap : Nat} {granted : Bool × Bool}
    (hfit : SizesFit elsize cap)
    (hnew : hashmap_new_with_allocator T elsize cap granted = some (some map))
    (ops : List (MapOp α)) (hsmall : staysSmall T map ops = true) :
    ∃ map' answers d', runMap T map ops = some (map', answers) ∧
      DictRun T ops [] answers d' ∧ d'.Perm map'.entries ∧
      hashmap_count map' = d'.length := by
  obtain ⟨map', answers, d', hrun, hs', hdict, hd'⟩ := runMap_new hT hfit hnew ops hsmall
  exact ⟨map', answers, d', hrun, hdict, hd', by rw [hd'.length_eq, ← hs'.count]; rfl⟩

def compareKeys (a b : Nat × Nat) : Int := if a.1 = b.1 then 0 else 1

theorem compareKeys_eq_zero {a b : Nat × Nat} : compareKeys a b = 0 ↔ a.1 = b.1 := by
  simp [compareKeys]

/-- Items with a key and a value, with few hashes. -/
def keyedItems : ItemType (Nat × Nat) where
  hash := fun item => item.1 % 3
  compare := some compareKeys
  elfree := true
  zero := (0, 0)

theorem keyedItems_comparable : keyedItems.Comparable where
  symm := by
    intro compare hc a b hab
    cases hc
    exact compareKeys_eq_zero.mpr (compareKeys_eq_zero.mp hab).symm
  trans := by
    intro compare hc a b c hab hbc
    cases hc
    exact compareKeys_eq_zero.mpr
      ((compareKeys_eq_zero.mp hab).trans (compareKeys_eq_zero.mp hbc))

/-- A new map for them, of two 64-bit numbers each. -/
def emptyMap : Hashmap (Nat × Nat) where
  elsize := 16
  cap := 16
  bucketsz := 24
  nbuckets := 16
  count := 0
  mask := 15
  growat := 9
  shrinkat := 1
  loadfactor := 60
  growpower := 1
  oom := false
  buckets := fun _ => ⟨0, 0, (0, 0)⟩
  size := 384

theorem emptyMap_new :
    hashmap_new_with_allocator keyedItems 16 0 (true, true) = some (some emptyMap) := rfl

theorem emptyMap_fits : SizesFit 16 0 := ⟨by decide, by decide⟩

/-- Ten items, for the last of which the map has to grow: refused, then granted.  Then one is
replaced, and all but two are taken out, which shrinks the map. -/
def growAndShrink : List (MapOp (Nat × Nat)) :=
  (List.range 9).map (fun key => .set (key, 1) none (true, true)) ++
    [.set (9, 1) none (true, false), .set (9, 2) none (true, true),
      .set (4, 3) none (true, true), .get (4, 0) none, .count] ++
    (List.range 8).map (fun key => .delete (key, 0) none (true, true)) ++
    [.get (4, 0) none, .iterate, .clear false true]

def growAndShrinkAnswers : List (MapAnswer (Nat × Nat)) :=
  List.replicate 9 (.item none) ++
    [.oom, .item none, .item (some (4, 1)), .item (some (4, 3)), .number 10] ++
    [.item (some (0, 1)), .item (some (1, 1)), .item (some (2, 1)), .item (some (3, 1)),
      .item (some (4, 3)), .item (some (5, 1)), .item (some (6, 1)), .item (some (7, 1))] ++
    [.item none, .items [(9, 2), (8, 1)], .items [(9, 2), (8, 1)]]

theorem growAndShrink_run :
    staysSmall keyedItems emptyMap growAndShrink = true ∧
      (runMap keyedItems emptyMap growAndShrink).map (·.2) = some growAndShrinkAnswers := by
  decide +kernel

theorem hashmap_dictionary_grows_and_shrinks :
    ∃ map' d', (runMap keyedItems emptyMap growAndShrink).map (·.1) = some map' ∧
      DictRun keyedItems growAndShrink [] growAndShrinkAnswers d' ∧ d'.Perm map'.entries ∧
      hashmap_count map' = d'.length := by
  obtain ⟨map', answers, d', hrun, hdict, hd', hcount⟩ :=
    hashmap_dictionary keyedItems_comparable emptyMap_fits emptyMap_new growAndShrink
      growAndShrink_run.1
  have hanswers := growAndShrink_run.2
  rw [hrun, Option.map_some, Option.some.injEq] at hanswers
  rw [hrun, ← hanswers]
  exact ⟨map', d', rfl, hdict, hd', hcount⟩

end NoGround
