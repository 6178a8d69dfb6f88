/-
  Core/Overflow.lean --- when the arithmetic of a growable array is the one without bounds.

  While the capacities stay in `i32`, a run asks the allocator and `memcpy` for what it would
  ask without bounds (`runOps_triple`).  A removal and a fit never leave `i32`, so the first
  step that does is a push that doubles the capacity, or the first allocation; the first thing
  it does is to ask for a block, and it asks for another one than it should
  (`runOps_deviates`).  So the trace of the whole run tells whether it stayed in `i32`.
-/
import NoGround.Core.ArrayList

set_option autoImplicit false

namespace NoGround

open NoGround.Lib

/-! ## Another request -/

theorem toI32_lt (n : Int) : toI32 n < 2 ^ 31 := by
  have h := Int.bmod_lt (x := n) (m := 2 ^ 32) (by decide)
  unfold toI32
  omega

theorem le_toI32 (n : Int) : -2 ^ 31 ≤ toI32 n := by
  have h := Int.le_bmod (x := n) (m := 2 ^ 32) (by decide)
  unfold toI32
  omega

/-- A size that is not in `i32` is not the one that is asked for. -/
theorem allocSize_ne {w c : Nat} (hw : w < 2 ^ 31) (hc : c < 2 ^ 31) (hover : 2 ^ 31 ≤ w * c) :
    allocSize w c ≠ sizeofArrayMeta + w * c := by
  have hlt : w * c < 2 ^ 31 * 2 ^ 31 := Nat.mul_lt_mul'' hw hc
  have hlow := le_toI32 ((w : Int) * c)
  have hhigh := toI32_lt ((w : Int) * c)
  unfold allocSize toSize sizeofArrayMeta
  generalize toI32 ((w : Int) * c) = r at hlow hhigh
  generalize w * c = p at hlt hover
  omega

/-- A capacity that does not stay in `i32` shows in the request for it. -/
theorem requested_ne {w c : Nat} (hw : w < 2 ^ 31) (hover : ¬ InI32 w c) (granted : Bool) :
    MemEvent.requested (allocSize w (toI32 c)) (toI32 c) granted ≠ requestFor w c := by
  intro heq
  unfold requestFor at heq
  injection heq with hsize hcap _
  have hc : c < 2 ^ 31 := by
    have hlt := toI32_lt c
    omega
  rw [hcap] at hsize
  exact allocSize_ne hw hc (Nat.le_of_not_lt fun hlt => hover ⟨hc, hlt⟩) hsize

/-! ## Traces that deviate -/

/-- After `u`, something else than `e` happened. -/
def Deviates {ω : Type} (u : List MemEvent) (e : MemEvent) :
    List MemEvent → ArrayMachine ω → Prop :=
  fun t _ => ∃ e', e' ≠ e ∧ u ++ [e'] <+: t

section Deviates

variable {ω α : Type} {u : List MemEvent} {e : MemEvent} {P : NgArray → Prop}

/-- Nothing that comes later mends it. -/
theorem keeps_deviates (m : ArrayProc ω α) : Proc.Keeps (Deviates u e) m := by
  refine Proc.Keeps.of_prefix (C := fun t => ∃ e', e' ≠ e ∧ u ++ [e'] <+: t) ?_ m
  rintro t v ⟨e', hne, hprefix⟩
  exact ⟨e', hne, hprefix.trans (List.prefix_append t v)⟩

theorem emit_deviates {e' : MemEvent} (h : e' ≠ e) (m : ArrayProc ω α) :
    Proc.Triple (Traced u P) (Proc.emit e' >>= fun _ => m)
      (fun _ => Deviates u e) (fun _ => Deviates u e) := by
  refine Proc.Triple.bind (Q := fun _ => Deviates u e) (Proc.Triple.emit ?_) fun _ =>
    keeps_deviates m
  rintro t s ⟨rfl, -⟩
  exact ⟨e', h, List.prefix_rfl⟩

theorem ne_of_deviates {v t : List MemEvent} {m : ArrayMachine ω} (h : Deviates u e t m) :
    t ≠ u ++ e :: v := by
  rintro rfl
  obtain ⟨e', hne, hprefix⟩ := h
  rw [List.prefix_append_right_inj, List.cons_prefix_cons] at hprefix
  exact hne hprefix.1

end Deviates

/-! ## The first step out of `i32` -/

section Overflow

variable {ω : Type} (alloc : AllocFn ω) {w c : Nat} {u : List MemEvent} {P : NgArray → Prop}

theorem allocate_deviates (old : Block) (hw : w < 2 ^ 31) (hover : ¬ InI32 w c) :
    Proc.Triple (Traced u P) (allocate alloc w old (toI32 c))
      (fun _ => Deviates u (requestFor w c)) (fun _ => Deviates u (requestFor w c)) := by
  unfold allocate
  refine Proc.Triple.bind (Q := fun _ => Traced u P) (Proc.Triple.step fun _ _ h => h)
    fun new => ?_
  exact emit_deviates (requested_ne hw hover new.isSome) _

theorem ngArrayAlloc_deviates (hw : w < 2 ^ 31) (hc : c < 2 ^ 31) (hover : ¬ InI32 w c) :
    Proc.Triple (Traced u P) (ngArrayAlloc alloc w c : ArrayProc ω Unit)
      (fun _ => Deviates u (requestFor w c)) (fun _ => Deviates u (requestFor w c)) := by
  have hcap : toI32 (c : Int) = c := toI32_of_lt hc
  unfold ngArrayAlloc
  rw [← hcap]
  refine Proc.Triple.bind (allocate_deviates alloc _ hw hover) fun new => ?_
  exact keeps_deviates _

/-- A push never asks for twice the capacity, if that is not in `i32`. -/
theorem ngArrayPush_deviates (items : List Item) (item : Nat → UInt8) (hw : w < 2 ^ 31)
    (hover : ¬ InI32 w (c * 2)) :
    Proc.Triple (Traced u (Contains w items c)) (ngArrayPush alloc w item : ArrayProc ω Int)
      (fun _ => Deviates u (requestFor w (c * 2)))
      (fun _ => Deviates u (requestFor w (c * 2))) := by
  refine traced_triple fun array h => ?_
  unfold ngArrayPush
  refine read_at ?_
  by_cases hgrow : array.cap < toI32 (array.len + 1)
  · rw [Proc.when_pos hgrow, h.cap_eq]
    refine Proc.Triple.bind ?_ fun _ => keeps_deviates _
    unfold ngArrayResize
    refine read_at ?_
    exact Proc.Triple.bind (allocate_deviates alloc _ hw hover) fun new => keeps_deviates _
  · -- The length wraps too, and no block is asked for at all.
    rw [Proc.when_neg hgrow]
    refine Proc.Triple.bind (Q := fun _ => At u array) (Proc.Triple.pure fun _ _ h => h)
      fun _ => ?_
    refine read_at ?_
    refine Proc.Triple.bind ?_ fun _ => keeps_deviates _
    unfold ArrayProc.copyIn
    refine emit_deviates ?_ _
    intro heq
    cases heq

end Overflow

/-! ## Operations on the list -/

section Counts

variable {w c : Nat} {items items' : List Item} {result : OpResult}

/-- Only a push on a full array can leave `i32`. -/
theorem ArrayOp.push_of_overflow {op : ArrayOp} (hle : items.length ≤ c) (hc : InI32 w c)
    (hop : op.onList w items = some (items', result))
    (hover : ¬ InI32 w (op.newCap items.length c)) :
    ∃ item, op = .push item ∧ c = items.length ∧ op.newCap items.length c = c * 2 := by
  have hsmaller : ∀ {k : Nat}, k ≤ c → InI32 w k := fun hk =>
    ⟨Nat.lt_of_le_of_lt hk hc.1, hc.mul_lt hk⟩
  have hremoval : op.Removes → InI32 w (op.newCap items.length c) := fun hremoves =>
    hsmaller (newCap_le hremoves (pos_of_removes hremoves hop) hle)
  cases op with
  | push item =>
    simp only [newCap] at hover ⊢
    refine ⟨item, rfl, ?_⟩
    by_cases hfull : c < items.length + 1
    · rw [if_pos hfull]
      exact ⟨by omega, rfl⟩
    · rw [if_neg hfull] at hover
      exact absurd hc hover
  | pop item => exact absurd (hremoval trivial) hover
  | remove index item => exact absurd (hremoval trivial) hover
  | swapAndPop index item => exact absurd (hremoval trivial) hover
  | fit => exact absurd (hsmaller hle) hover

/-- A shorter run is a run, in range and granted like the longer one. -/
theorem listOps_append {ops : List ArrayOp} (rest : List ArrayOp) {results : List OpResult}
    (h : listOps w (ops ++ rest) items = some (items', results)) :
    ∃ items₁ results₁, listOps w ops items = some (items₁, results₁) := by
  induction ops generalizing items results with
  | nil => exact ⟨items, [], rfl⟩
  | cons op ops ih =>
    obtain ⟨items₁, result, results₁, hop, hrest, -⟩ := listOps_cons h
    obtain ⟨items₂, results₂, hops⟩ := ih hrest
    refine ⟨items₂, result :: results₂, ?_⟩
    unfold listOps
    rw [hop]
    show (listOps w ops items₁).map _ = _
    rw [hops]
    rfl

theorem staysInI32_append {ops : List ArrayOp} (rest : List ArrayOp) (items : List Item)
    (h : StaysInI32 w (ops ++ rest) items c) : StaysInI32 w ops items c := by
  induction ops generalizing items c with
  | nil => trivial
  | cons op ops ih =>
    rw [List.cons_append] at h
    unfold StaysInI32 at h ⊢
    split at h
    · trivial
    · exact ⟨h.1, ih _ h.2⟩

end Counts

theorem runOps_out_prefix {ω : Type} (alloc : AllocFn ω) (item_size : Int)
    (ops rest : List ArrayOp) (m : ArrayMachine ω) :
    (runOps alloc item_size ops m).out <+: (runOps alloc item_size (ops ++ rest) m).out := by
  induction ops generalizing m with
  | nil => exact List.nil_prefix
  | cons op ops ih =>
    rw [List.cons_append]
    unfold runOps
    refine Proc.out_bind_prefix (fun result s => ?_) _ m
    rw [Proc.out_bind_pure, Proc.out_bind_pure]
    exact ih s

/-! ## Runs -/

section Runs

variable {ω : Type} (alloc : AllocFn ω) {w c : Nat} {items items' : List Item}
  {ops : List ArrayOp} {results : List OpResult} {u : List MemEvent}

theorem allGranted_events (op : ArrayOp) (n : Nat) : AllGranted (op.events w n c) := by
  intro e he
  have hitem : ∀ {k item}, e ∈ itemOut w k item → e.IsGranted := by
    intro k item h
    unfold itemOut at h
    split at h
    · rw [List.mem_singleton.mp h]
      trivial
    · cases h
  have hshrink : ∀ {k}, e ∈ shrinkEvents w k c → e.IsGranted := by
    intro k h
    unfold shrinkEvents at h
    split at h
    · rw [List.mem_singleton.mp h]
      rfl
    · cases h
  cases op with
  | push item =>
    rcases List.mem_append.mp he with h | h
    · split at h
      · rw [List.mem_singleton.mp h]
        rfl
      · cases h
    · rw [List.mem_singleton.mp h]
      trivial
  | pop item => exact (List.mem_append.mp he).elim hitem hshrink
  | remove index item =>
    rcases List.mem_append.mp he with h | h
    · refine (List.mem_append.mp h).elim hitem fun h => ?_
      rw [List.mem_singleton.mp h]
      trivial
    · exact hshrink h
  | swapAndPop index item =>
    simp only [ArrayOp.events] at he
    split at he
    · exact (List.mem_append.mp he).elim hitem hshrink
    · rcases List.mem_append.mp he with h | h
      · refine (List.mem_append.mp h).elim hitem fun h => ?_
        rw [List.mem_singleton.mp h]
        trivial
      · exact hshrink h
  | fit =>
    rw [List.mem_singleton.mp he]
    rfl

theorem allGranted_opsEvents (ops : List ArrayOp) (n c : Nat) :
    AllGranted (opsEvents w ops n c) := by
  induction ops generalizing n c with
  | nil => exact fun e he => absurd he List.not_mem_nil
  | cons op ops ih =>
    intro e he
    rcases List.mem_append.mp he with h | h
    · exact allGranted_events op n e h
    · exact ih _ _ e h

/-- Once a capacity is not in `i32`, the trace is another one. -/
theorem runOps_deviates (hw : w < 2 ^ 31) (hpos : 0 < c) (hle : items.length ≤ c)
    (hc : InI32 w c) (hops : listOps w ops items = some (items', results))
    (hu : AllGranted u) (hleaves : ¬ StaysInI32 w ops items c) :
    Proc.Triple (Traced u (Contains w items c)) (runOps alloc w ops)
      (fun _ t _ => t ≠ u ++ opsEvents w ops items.length c)
      (fun _ t _ => t ≠ u ++ opsEvents w ops items.length c) := by
  induction ops generalizing items results u c with
  | nil => exact absurd trivial hleaves
  | cons op ops ih =>
    obtain ⟨items₁, result, results₁, hop, hrest, -⟩ := listOps_cons hops
    obtain ⟨hcompletes, hitems, -⟩ := ArrayOp.follows_onList hpos hle hop
    obtain ⟨hpos', hle'⟩ := ArrayOp.room_of_onList hpos hle hop
    unfold runOps opsEvents
    by_cases hrange : InI32 w (op.newCap items.length c)
    · -- This operation is still in range, or it is refused.
      have hleaves' : ¬ StaysInI32 w ops items₁ (op.newCap items.length c) := fun h =>
        hleaves ((staysInI32_cons hop).mpr ⟨hrange, h⟩)
      have hu' : AllGranted (u ++ op.events w items.length c) :=
        List.forall_mem_append.mpr ⟨hu, allGranted_events op items.length⟩
      have hall : AllGranted (u ++ (op.events w items.length c ++
          opsEvents w ops (op.newLen items.length c) (op.newCap items.length c))) := by
        rw [← List.append_assoc]
        exact List.forall_mem_append.mpr ⟨hu', allGranted_opsEvents ops _ _⟩
      have hrun := ih (u := u ++ op.events w items.length c) hpos' hle' hrange hrest hu' hleaves'
      rw [hitems, ArrayOp.length_newItems hcompletes, List.append_assoc] at hrun
      refine Proc.Triple.bind ((op.run_triple alloc hcompletes hrange).conseq
        (fun _ _ h => h) (fun _ _ _ h => h.2) ?_) fun _ => ?_
      · rintro e t m ⟨-, hrefused⟩ rfl
        exact hrefused hall
      · exact Proc.Triple.bind hrun fun _ => Proc.Triple.pure fun _ _ h => h
    · -- It is a push that doubles the capacity.
      obtain ⟨item, rfl, hfull, hnew⟩ := ArrayOp.push_of_overflow hle hc hop hrange
      rw [hnew] at hrange
      have hevents : ArrayOp.events w items.length c (.push item) =
          requestFor w (c * 2) :: [.copied (.array ((w * items.length : Nat) : Int)) .item w] := by
        simp only [ArrayOp.events]
        rw [if_pos (by omega)]
        rfl
      have hpush := ngArrayPush_deviates alloc (u := u) items item hw hrange
      rw [hevents]
      refine ((Proc.Triple.bind (Proc.Triple.bind hpush fun _ => keeps_deviates _) fun _ =>
        keeps_deviates _).conseq (fun _ _ h => h) ?_ ?_)
      · exact fun _ _ _ h => ne_of_deviates h
      · exact fun _ _ _ h => ne_of_deviates h

end Runs

/-! ## Every run -/

/-- The block is not smaller than the capacity recorded in it. -/
def HoldsCap (w : Nat) (array : NgArray) : Prop := (w : Int) * array.cap ≤ array.items.size

/-- Every number is the one without bounds, and no block is ever too small. -/
def SizesExact {ω : Type} (alloc : AllocFn ω) (w cap : Nat) (ops : List ArrayOp)
    (m : ArrayMachine ω) : Prop :=
  (arrayRun alloc w cap ops m).out = arrayEvents w cap ops ∧
    ∀ ops', ops' <+: ops → HoldsCap w (arrayRun alloc w cap ops' m).state.array

section Every

variable {ω : Type} (alloc : AllocFn ω) {w cap : Nat} {ops : List ArrayOp} {items : List Item}
  {results : List OpResult} (m : ArrayMachine ω)

theorem arrayRun_traced (hpos : 1 ≤ cap) (hcap : InI32 w cap)
    (hops : listOps w ops [] = some (items, results)) (hstays : StaysInI32 w ops [] cap)
    (hgranted : AllGranted (arrayRun alloc w cap ops m).out) :
    (arrayRun alloc w cap ops m).out = arrayEvents w cap ops ∧
      HoldsCap w (arrayRun alloc w cap ops m).state.array := by
  obtain ⟨r, m', out, heq, -, hout, cap', hrep⟩ :=
    ok_of_allGranted (arrayRun_triple alloc hpos hcap hops hstays) ⟨rfl, trivial⟩ hgranted
  rw [heq]
  refine ⟨hout, ?_⟩
  unfold HoldsCap
  rw [hrep.cap_eq, hrep.size_eq, Int.natCast_mul]

theorem arrayRun_deviates (hw : w < 2 ^ 31) (hpos : 1 ≤ cap) (hlt : cap < 2 ^ 31)
    (hops : listOps w ops [] = some (items, results))
    (hleaves : ¬ (InI32 w cap ∧ StaysInI32 w ops [] cap)) :
    (arrayRun alloc w cap ops m).out ≠ arrayEvents w cap ops := by
  have hrun : Proc.Triple (Traced [] fun _ => True) (arrayRun alloc w cap ops)
      (fun _ t _ => t ≠ arrayEvents w cap ops) (fun _ t _ => t ≠ arrayEvents w cap ops) := by
    have hgranted : AllGranted [requestFor w cap] := List.forall_mem_singleton.mpr rfl
    by_cases hcap : InI32 w cap
    · refine Proc.Triple.bind ((ngArrayAlloc_triple alloc hcap).conseq (fun _ _ h => h)
        (fun _ _ _ h => h) ?_) fun _ => ?_
      · rintro e t m ⟨-, hrefused⟩ rfl
        exact hrefused (List.forall_mem_append.mpr ⟨hgranted, allGranted_opsEvents ops _ _⟩)
      · exact runOps_deviates alloc hw hpos
          (show ([] : List Item).length ≤ cap from Nat.zero_le cap) hcap hops hgranted
          fun h => hleaves ⟨hcap, h⟩
    · refine (Proc.Triple.bind (ngArrayAlloc_deviates alloc hw hlt hcap) fun _ =>
        keeps_deviates _).conseq (fun _ _ h => h) ?_ ?_
      · exact fun _ _ _ h => ne_of_deviates h
      · exact fun _ _ _ h => ne_of_deviates h
  have hpost := hrun [] m ⟨rfl, trivial⟩
  unfold Proc.Post at hpost
  split at hpost
  · exact hpost
  · exact hpost

/-- **The sizes of an array do not wrap** exactly when the capacity it is created with and
every capacity after that are in `i32`, and so is the size of so many items. -/
theorem arrayRun_sizesExact_iff (hw : w < 2 ^ 31) (hpos : 1 ≤ cap) (hlt : cap < 2 ^ 31)
    (hops : listOps w ops [] = some (items, results))
    (hgranted : AllGranted (arrayRun alloc w cap ops m).out) :
    SizesExact alloc w cap ops m ↔ InI32 w cap ∧ StaysInI32 w ops [] cap := by
  constructor
  · rintro ⟨hout, -⟩
    exact Classical.byContradiction fun hleaves =>
      arrayRun_deviates alloc m hw hpos hlt hops hleaves hout
  · rintro ⟨hcap, hstays⟩
    refine ⟨(arrayRun_traced alloc m hpos hcap hops hstays hgranted).1, ?_⟩
    rintro ops' ⟨rest, rfl⟩
    obtain ⟨items', results', hops'⟩ := listOps_append rest hops
    refine (arrayRun_traced alloc m hpos hcap hops' (staysInI32_append rest [] hstays) ?_).2
    have hstart : (arrayRun alloc w cap ops' m).out <+:
        (arrayRun alloc w cap (ops' ++ rest) m).out :=
      Proc.out_bind_prefix (fun _ => runOps_out_prefix alloc w ops' rest) _ m
    exact fun e he => hgranted e (hstart.subset he)

end Every

theorem arrayRun_sizesExact_three_items : SizesExact grantAll 2 1 threeItems noArray :=
  (arrayRun_sizesExact_iff grantAll noArray (by decide) (by decide) (by decide)
    threeItems_onList (by decide +kernel)).mpr
    ⟨by decide, by decide, by decide, by decide, by decide, by decide, by decide, trivial⟩

/-- For 65536 items of 65536 bytes no byte is asked for. -/
theorem large_items_get_no_room :
    (arrayRun grantAll 65536 65536 [] noArray).out = [.requested sizeofArrayMeta 65536 true] ∧
      ¬ SizesExact grantAll 65536 65536 [] noArray := by
  have hout : (arrayRun grantAll 65536 65536 [] noArray).out =
      [.requested sizeofArrayMeta 65536 true] := by decide +kernel
  refine ⟨hout, fun hexact => ?_⟩
  have hsame := hexact.1
  rw [Nat.cast_ofNat, hout] at hsame
  injection hsame with hrequest _
  injection hrequest with hsize _ _
  exact absurd hsize (by decide)

end NoGround
