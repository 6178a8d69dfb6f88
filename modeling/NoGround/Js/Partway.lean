/-
  Js/Partway.lean --- what `set` leaves behind when it throws.

  A pointer out of range is found before anything is written.  Otherwise the leaves are written
  one by one, and one of them may throw: a value that is no number, a type without accessors,
  an array.  Nothing is taken back then.  The buffer has the leaves in front of this one, in
  full, and nothing of it and of those behind it.
-/
import NoGround.Js.Stores

set_option autoImplicit false

namespace NoGround

open NoGround.Lib

/-- The leaves `done` are written, and then `leaf` throws. -/
structure StopsAt (view : DataView) (done : List Leaf) (leaf : Leaf) (e : JsError)
    (b b' : Block) : Prop where
  written : setLeaves view done b = ⟨.ok (), b', []⟩
  thrown : leaf.slot.type.set view leaf.value leaf.slot.offset b' = ⟨.error e, b', []⟩
  kept : ∀ j, (∀ l ∈ done, ¬ l.slot.Covers view.byteOffset j) → b'.byte j = b.byte j

section Leaves

variable {view : DataView} {e : JsError} {out : List Empty} {b b' : Block}

/-- The first leaf throws. -/
theorem StopsAt.first {leaf : Leaf} (hleaf : leaf.OwnsWrite view)
    (hrun : leaf.slot.type.set view leaf.value leaf.slot.offset b = ⟨.error e, b', out⟩) :
    StopsAt view [] leaf e b b' := by
  obtain ⟨rfl, rfl⟩ := hleaf.of_error hrun
  exact ⟨rfl, hrun, fun _ _ => rfl⟩

/-- One more leaf is written in front of the others. -/
theorem StopsAt.cons {first leaf : Leaf} {done : List Leaf} {mid : Block}
    (hfirst : first.OwnsWrite view)
    (hrun : first.slot.type.set view first.value first.slot.offset b = ⟨.ok (), mid, out⟩)
    (h : StopsAt view done leaf e mid b') : StopsAt view (first :: done) leaf e b b' := by
  refine ⟨?_, h.thrown, fun j hj => ?_⟩
  · obtain rfl : out = [] := Subsingleton.elim _ _
    rw [setLeaves, Proc.bind_run_ok hrun, h.written]
    rfl
  · have hframe := (Puts.stores hfirst).frame b (j := j)
    rw [hrun] at hframe
    have hout := hj first List.mem_cons_self
    unfold Slot.Covers at hout
    exact (h.kept j fun l hl => hj l (List.mem_cons_of_mem first hl)).trans (hframe (by omega))

/-- Leaves that are not all written stop at one of them. -/
theorem setLeaves_stops {leaves : List Leaf} (hleaves : ∀ leaf ∈ leaves, leaf.OwnsWrite view)
    (hrun : setLeaves view leaves b = ⟨.error e, b', out⟩) :
    ∃ done leaf rest, leaves = done ++ leaf :: rest ∧ StopsAt view done leaf e b b' := by
  induction leaves generalizing b out with
  | nil => cases hrun
  | cons first leaves ih =>
    have hfirst := hleaves first List.mem_cons_self
    rcases hset : first.slot.type.set view first.value first.slot.offset b with ⟨r, mid, out'⟩
    rw [setLeaves] at hrun
    cases r with
    | error e' =>
      rw [Proc.bind_run_error hset] at hrun
      injection hrun with he hb hout
      injection he with he
      subst he hb hout
      exact ⟨[], first, leaves, rfl, StopsAt.first hfirst hset⟩
    | ok a =>
      rw [Proc.bind_run_ok hset] at hrun
      injection hrun with he hb hout
      obtain ⟨done, leaf, rest, rfl, hstops⟩ :=
        ih (fun l hl => hleaves l (List.mem_cons_of_mem first hl))
          (show setLeaves view leaves mid = ⟨.error e, b', _⟩ by rw [← he, ← hb])
      exact ⟨first :: done, leaf, rest, rfl, StopsAt.cons hfirst hset hstops⟩

end Leaves

section MemView

variable {host : Host} {d : TypeDef} {v : JsValue} {ptr : Nat} {b b' : Block} {e : JsError}
  {out : List Empty}

/-- **A `set` that throws** was given a pointer out of range, and has written nothing; or it
has written the leaves in front of the one that throws. -/
theorem memView_set_stops (hv : d.Supplied v)
    (hrun : CMemView.set ptr (d.type host) v b = ⟨.error e, b', out⟩) :
    ((b.size < ptr + (d.type host).size ∧ e = .rangeError ∧ b' = b) ∨
      (ptr + (d.type host).size ≤ b.size ∧ ∃ done leaf rest,
        d.leaves host v 0 = done ++ leaf :: rest ∧
          StopsAt ⟨ptr, (d.type host).size⟩ done leaf e b b')) ∧
      b'.size = b.size ∧
      ∀ j, ¬ (ptr ≤ j ∧ j < ptr + (d.type host).size) → b'.byte j = b.byte j := by
  have hframe := CMemView.set_frame host d v ptr b
  rw [hrun] at hframe
  refine ⟨?_, hframe⟩
  rcases Nat.lt_or_ge b.size (ptr + (d.type host).size) with hout | hroom
  · rw [CMemView.set_run_outside v hout] at hrun
    injection hrun with he hb _
    injection he with he
    exact Or.inl ⟨hout, he.symm, hb.symm⟩
  · rw [CMemView.set_run_inside v hroom, d.set_eq host _ v 0 hv] at hrun
    exact Or.inr ⟨hroom, setLeaves_stops (d.leaves_ownWrite host _ v 0) hrun⟩

end MemView

/-- `{ kind: u8, items: u8[1] }` -/
def kindAndItems : TypeDef :=
  .struct (.cons "kind" (.scalar (.int .u8))
    (.cons "items" (.array (.scalar (.int .u8)) 1 none) .nil))

/-- `{ kind: 7, items: [9] }` -/
def sevenAndNine : JsValue := .object [("kind", .number 7), ("items", .array [.number 9])]

/-- The kind is written, and the array throws. -/
theorem kind_is_written :
    CMemView.set 0 (kindAndItems.type smallFirst) sevenAndNine ⟨2, fun _ => 0⟩ =
      ⟨.error .error, Block.write ⟨2, fun _ => 0⟩ 0 [7], []⟩ := rfl

theorem kindAndItems_stops : ∃ done leaf rest,
    kindAndItems.leaves smallFirst sevenAndNine 0 = done ++ leaf :: rest ∧
      StopsAt ⟨0, 2⟩ done leaf .error ⟨2, fun _ => 0⟩ (Block.write ⟨2, fun _ => 0⟩ 0 [7]) := by
  have hsupplied : kindAndItems.Supplied sevenAndNine :=
    ⟨⟨_, rfl⟩, trivial, ⟨_, rfl⟩, trivial, trivial⟩
  rcases (memView_set_stops hsupplied kind_is_written).1 with ⟨hout, -⟩ | ⟨-, hstops⟩
  · exact absurd hout (by decide)
  · exact hstops

/-- The data has all its fields, and the buffer is not what it was. -/
theorem kind_stays : kindAndItems.Supplied sevenAndNine ∧
    ∃ b', CMemView.set 0 (kindAndItems.type smallFirst) sevenAndNine ⟨2, fun _ => 0⟩ =
        ⟨.error .error, b', []⟩ ∧ b' ≠ ⟨2, fun _ => 0⟩ := by
  refine ⟨⟨⟨_, rfl⟩, trivial, ⟨_, rfl⟩, trivial, trivial⟩, _, kind_is_written, fun hsame => ?_⟩
  have hbyte := congrArg (fun b : Block => b.byte 0) hsame
  exact absurd hbyte (by decide)

end NoGround
