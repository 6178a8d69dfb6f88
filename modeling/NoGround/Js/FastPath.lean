/-
  Js/FastPath.lean --- arrays that are read as typed arrays, against arrays that are read item
  by item, and what is read and written of 64-bit integers.

  A typed array takes its elements from an aligned place, in the byte order of the machine.
  The loop takes them from any place, least significant byte first.  So the two agree at an
  aligned place, if the machine has this order too or the elements are the same in both.

  The typed array of a `u64` starts at the offset in the view, which is not the place in the
  buffer, and the scalar types of 64 bits have no accessors at all.
-/
import NoGround.Js.Arrays
import NoGround.Js.RoundTrip

set_option autoImplicit false

namespace NoGround

open NoGround.Lib

/-! ## Byte order -/

/-- The number of some bytes, in the byte order of the machine. -/
def Host.word (host : Host) (bs : List UInt8) : Nat := natLE (host.order bs)

theorem Host.word_eq_iff (host : Host) (bs : List UInt8) :
    host.word bs = natLE bs ↔ host.littleEndian = true ∨ natBE bs = natLE bs := by
  unfold word order
  cases host.littleEndian with
  | true => exact ⟨fun _ => Or.inl rfl, fun _ => rfl⟩
  | false =>
    rw [if_neg Bool.false_ne_true]
    unfold natLE
    rw [List.reverse_reverse]
    exact ⟨Or.inr, fun h => h.resolve_left Bool.false_ne_true⟩

/-! ## Arrays of `u8`, `u16` and `u32` -/

/-- The element types that are read as typed arrays. -/
def IntType.HasTypedArray (t : IntType) : Prop := t = .u8 ∨ t = .u16 ∨ t = .u32

/-- The array is read, and every item of it is what its type reads at the place of the item. -/
def ReadsItems (host : Host) (t : IntType) (n : Nat) (view : DataView) (o : Nat) (b : Block) :
    Prop :=
  ∃ items : List JsValue,
    (CArray host (.ctypes (.int t)) n none).get view o b = ⟨.ok (.array items), b, []⟩ ∧
      items.length = n ∧
      ∀ i (h : i < items.length), t.type.get view (o + i * t.type.size) b = ⟨.ok items[i], b, []⟩

section FastPath

variable {host : Host} {t : IntType} {n o : Nat} {view : DataView} {b : Block}

/-- Without a map, the array is the typed array. -/
theorem fastPath_eq (ht : t.HasTypedArray) :
    (CArray host (.ctypes (.int t)) n none).get view o =
      (host.newIntArray t.element (o + view.byteOffset) n >>= fun data => pure data) := by
  rcases ht with rfl | rfl | rfl
  · rfl
  · rfl
  · rfl

theorem fastPath_aligned (ht : t.HasTypedArray) (halign : t.type.size ∣ view.byteOffset + o)
    (hview : view.byteOffset + view.byteLength ≤ b.size)
    (hroom : o + n * t.type.size ≤ view.byteLength) :
    (CArray host (.ctypes (.int t)) n none).get view o b =
      ⟨.ok (.array ((List.range n).map fun i => .number
        (host.word (b.slice (view.byteOffset + (o + i * t.type.size)) t.type.size)))), b, []⟩ := by
  rw [t.size_type] at halign hroom ⊢
  rw [Nat.add_comm] at halign
  have hnew := newTypedArray_aligned host (fun bs => .number (t.element.value (natLE bs))) halign
    (show o + view.byteOffset + n * t.element.size ≤ b.size by omega)
  rw [fastPath_eq ht]
  unfold Host.newIntArray
  rw [Proc.bind_run_ok hnew]
  have hunsigned : t.element.signed = false := by
    rcases ht with rfl | rfl | rfl
    · rfl
    · rfl
    · rfl
  have hplace : ∀ i, o + view.byteOffset + i * t.element.size =
      view.byteOffset + (o + i * t.element.size) := fun i => by omega
  simp only [ElementType.value, hunsigned, hplace]
  rfl

theorem fastPath_unaligned (ht : t.HasTypedArray) (halign : ¬ t.type.size ∣ view.byteOffset + o) :
    (CArray host (.ctypes (.int t)) n none).get view o b = ⟨.error .rangeError, b, []⟩ := by
  rw [t.size_type, Nat.add_comm] at halign
  have hnew := newTypedArray_unaligned host (fun bs => .number (t.element.value (natLE bs)))
    (b := b) n halign
  rw [fastPath_eq ht]
  exact Proc.bind_run_error hnew _

/-- What the loop reads for item `i`. -/
theorem item_run (ht : t.HasTypedArray) {i : Nat} (hi : i < n)
    (hroom : o + n * t.type.size ≤ view.byteLength) :
    t.type.get view (o + i * t.type.size) b = ⟨.ok (.number
      (natLE (b.slice (view.byteOffset + (o + i * t.type.size)) t.type.size))), b, []⟩ := by
  have hend : i * t.type.size + t.type.size ≤ n * t.type.size := by
    rw [← Nat.succ_mul]
    exact Nat.mul_le_mul_right _ hi
  rw [IntType.get_run (by omega)]
  rcases ht with rfl | rfl | rfl
  · rfl
  · rfl
  · rfl

/-- **The typed array agrees with the loop** exactly at the places where it is aligned, on a
machine with the byte order of the types or for elements that are the same in both orders. -/
theorem carray_readsItems_iff (ht : t.HasTypedArray)
    (hview : view.byteOffset + view.byteLength ≤ b.size)
    (hroom : o + n * t.type.size ≤ view.byteLength) :
    ReadsItems host t n view o b ↔ t.type.size ∣ view.byteOffset + o ∧
      (host.littleEndian = true ∨ ∀ i, i < n →
        natBE (b.slice (view.byteOffset + (o + i * t.type.size)) t.type.size) =
          natLE (b.slice (view.byteOffset + (o + i * t.type.size)) t.type.size)) := by
  constructor
  · rintro ⟨items, hget, hlength, hitems⟩
    have halign : t.type.size ∣ view.byteOffset + o := by
      refine Classical.byContradiction fun halign => ?_
      rw [fastPath_unaligned ht halign] at hget
      cases hget
    refine ⟨halign, ?_⟩
    rw [fastPath_aligned ht halign hview hroom] at hget
    obtain rfl := JsValue.array.inj (Result.ok_inj hget)
    refine Classical.or_iff_not_imp_left.mpr fun hhost i hi => ?_
    have hitem := hitems i (by rwa [hlength])
    rw [item_run ht hi hroom, List.getElem_map, List.getElem_range] at hitem
    have hword := JsValue.number.inj (Result.ok_inj hitem)
    exact ((host.word_eq_iff _).mp (Int.ofNat_inj.mp hword.symm)).resolve_left hhost
  · rintro ⟨halign, horder⟩
    refine ⟨_, fastPath_aligned ht halign hview hroom, by simp, fun i hi => ?_⟩
    have hlt : i < n := by simpa using hi
    have hword : host.word (b.slice (view.byteOffset + (o + i * t.type.size)) t.type.size) =
        natLE (b.slice (view.byteOffset + (o + i * t.type.size)) t.type.size) :=
      (host.word_eq_iff _).mpr (horder.imp id fun h => h i hlt)
    rw [item_run ht hlt hroom, List.getElem_map, List.getElem_range, hword]

end FastPath

/-- Two `u16` at an even place. -/
theorem carray_readsItems_even :
    ReadsItems smallFirst .u16 2 ⟨2, 6⟩ 2 ⟨8, fun i => UInt8.ofNat i⟩ :=
  (carray_readsItems_iff (Or.inr (Or.inl rfl)) (by decide) (by decide)).mpr
    ⟨by decide, Or.inl rfl⟩

/-- `{ tag: u8, at: u16[1] }`: the array is at an odd place, and `RangeError` is thrown. -/
theorem packed_array_throws :
    (CStruct [("tag", CTypes.u8), ("at", CArray smallFirst (.ctypes (.int .u16)) 1 none)]).get
        ⟨0, 3⟩ 0 ⟨3, fun i => UInt8.ofNat i⟩ =
      ⟨.error .rangeError, ⟨3, fun i => UInt8.ofNat i⟩, []⟩ ∧
      ¬ ReadsItems smallFirst .u16 1 ⟨0, 3⟩ 1 ⟨3, fun i => UInt8.ofNat i⟩ := by
  refine ⟨rfl, ?_⟩
  rintro ⟨items, hget, -⟩
  have hthrows : (CArray smallFirst (.ctypes (.int .u16)) 1 none).get ⟨0, 3⟩ 1
      ⟨3, fun i => UInt8.ofNat i⟩ = ⟨.error .rangeError, ⟨3, fun i => UInt8.ofNat i⟩, []⟩ :=
    fastPath_unaligned (Or.inr (Or.inl rfl)) (by decide)
  rw [hthrows] at hget
  cases hget

/-! ## 64-bit integers -/

/-- Writing a 64-bit integer at `p` and reading it back gives it. -/
def StoresWord (T : CTypeBase) (p : Nat) (v : Int) (b : Block) : Prop :=
  ∃ b', (CMemView.set p T (.bigint v) >>= fun _ => CMemView.get p T) b =
    ⟨.ok (.bigint v), b', []⟩

/-- An array of `u64` at `p` gives the words that are stored there. -/
def ReadsWords (host : Host) (n p : Nat) (b : Block) : Prop :=
  CMemView.get p (CArray host (.ctypes .u64) n none) b =
    ⟨.ok (.array ((List.range n).map fun i => .bigint (natLE (b.slice (p + i * 8) 8)))), b, []⟩

section Words

variable {host : Host} {n p : Nat} {b : Block}

/-- The accessors are missing: nothing is written, and nothing read. -/
theorem not_storesWord (v : Int) (hroom : p + 8 ≤ b.size) :
    ¬ StoresWord (CType 8 none none true 0) p v b := by
  rintro ⟨b', hrun⟩
  have hset : CMemView.set p (CType 8 none none true 0) (.bigint v) b =
      ⟨.error .typeError, b, []⟩ := Proc.bind_run_ok (view_run hroom) _
  rw [Proc.bind_run_error hset] at hrun
  cases hrun

/-- The array of `u64` reads from the beginning of the buffer. -/
theorem words_run (hroom : p + 8 * n ≤ b.size) :
    CMemView.get p (CArray host (.ctypes .u64) n none) b =
      ⟨.ok (.array ((List.range n).map fun i => .bigint (host.word (b.slice (i * 8) 8)))), b,
        []⟩ := by
  have hnew := newTypedArray_aligned host (fun bs => .bigint (natLE bs)) (Nat.dvd_zero 8)
    (show 0 + n * 8 ≤ b.size by omega)
  simp only [Nat.zero_add] at hnew
  have hview : CMemView.view p (some (CArray host (.ctypes .u64) n none).size) b =
      ⟨.ok ⟨p, 8 * n⟩, b, []⟩ := view_run hroom
  have hget : (CArray host (.ctypes .u64) n none).get ⟨p, 8 * n⟩ 0 b = _ := hnew
  unfold CMemView.get
  rw [Proc.bind_run_ok hview, hget]
  rfl

/-- **64-bit integers** cannot be stored at all.  An array of them at `q` is read as it is
stored exactly when the words at the beginning of the buffer, in the byte order of the machine,
are those at `q`. -/
theorem words_stored_and_read (v : Int) (q : Nat) :
    (p + 8 ≤ b.size → ¬ StoresWord CTypes.i64 p v b ∧ ¬ StoresWord CTypes.u64 p v b) ∧
      (q + 8 * n ≤ b.size → (ReadsWords host n q b ↔
        ∀ i, i < n → host.word (b.slice (i * 8) 8) = natLE (b.slice (q + i * 8) 8))) := by
  refine ⟨fun hroom => ⟨not_storesWord v hroom, not_storesWord v hroom⟩, fun harray => ?_⟩
  unfold ReadsWords
  rw [words_run harray]
  constructor
  · intro hsame i hi
    have hitems := JsValue.array.inj (Result.ok_inj hsame)
    have hitem := List.map_inj_left.mp hitems i (List.mem_range.mpr hi)
    exact Int.ofNat_inj.mp (JsValue.bigint.inj hitem)
  · intro hsame
    congr 3
    refine List.map_congr_left fun i hi => ?_
    rw [hsame i (List.mem_range.mp hi)]

end Words

/-- The words 1 and 2. -/
def twoWords : Block := ⟨16, fun i => if i = 0 then 1 else if i = 8 then 2 else 0⟩

theorem words_at_zero : ReadsWords smallFirst 2 0 twoWords :=
  ((words_stored_and_read (p := 0) 0 0).2 (by decide)).mpr fun i _ => by
    rw [Nat.zero_add]
    rfl

/-- An array of one `u64` at 8 gives the word at 0. -/
theorem word_at_eight_is_the_first :
    CMemView.get 8 (CArray smallFirst (.ctypes .u64) 1 none) twoWords =
        ⟨.ok (.array [.bigint 1]), twoWords, []⟩ ∧
      ¬ ReadsWords smallFirst 1 8 twoWords ∧ ¬ StoresWord CTypes.u64 8 3 twoWords := by
  have hrun : CMemView.get 8 (CArray smallFirst (.ctypes .u64) 1 none) twoWords =
      ⟨.ok (.array [.bigint 1]), twoWords, []⟩ := words_run (by decide)
  refine ⟨hrun, fun hreads => ?_, not_storesWord 3 (by decide)⟩
  unfold ReadsWords at hreads
  rw [hrun] at hreads
  have hitems := JsValue.array.inj (Result.ok_inj hreads)
  have hword := JsValue.bigint.inj (List.cons.inj hitems).1
  exact absurd hword (by decide)

end NoGround
