import Packwright.Proofs.Generation
import Packwright.Proofs.Planned
import Packwright.Proofs.Reading

/-
  The headers of fixed arrays. The size of an array is a 64-bit number and its header is made of
  the low 32 bits, so the header tells the size as long as it has no more bits than that
  (`tells_arrayHeader_iff`). Generated code has the header as a literal right in front of the loop
  over the elements (`loopsBehind_array`), and the encoder writes the same one in front of the
  elements (`appends_arrayHeader`).
-/

namespace Packwright

/-! ## What a header tells -/

namespace Wire

/-- A header tells a number of elements. -/
def Tells (header : Bytes) (n : Nat) : Prop := readToken header = some (.array n, [])

theorem tells_arrayHeader (size : Nat) :
    Tells (arrayHeader (UInt32.ofNat size)) (size % UInt32.size) := by
  have h := readToken_arrayHeader (UInt32.ofNat size) []
  rw [List.append_nil] at h
  rw [Tells, h, UInt32.toNat_ofNat']

/-- The header of an array tells its size exactly when the size has no more than 32 bits. -/
theorem tells_arrayHeader_iff (size : Nat) :
    Tells (arrayHeader (UInt32.ofNat size)) size ↔ size < UInt32.size := by
  have hlow : readToken (arrayHeader (UInt32.ofNat size)) =
      some (.array (size % UInt32.size), []) := tells_arrayHeader size
  unfold Tells
  rw [hlow]
  constructor
  · intro h
    have hmod : size % UInt32.size = size := by simpa using h
    rw [← hmod]
    exact Nat.mod_lt size (by decide)
  · intro h
    rw [Nat.mod_eq_of_lt h]

end Wire

/-! ## Generated code -/

namespace Marshal

/-- Code that writes what was held back with a header behind it, noting the size it stands for, and
then loops over the elements of a list. -/
def LoopsBehind (p : Pending) (size : Nat) (header : Bytes) (source : Place) (code : Body) : Prop :=
  ∃ item inside, code = [.line (.notes (p.notes ++ [.arrayHeader size])),
    .line (.literal (p.fusion.pending ++ header)), .block (.items item source) inside]

theorem constant_eq (c : Config) (note : Note) (bytes : Bytes) (p : Pending) :
    constant c note bytes p =
      if c.fuse then .ok ([], ⟨p.fusion.append bytes, p.notes ++ [note], p.names⟩)
      else flush ⟨p.fusion.append bytes, p.notes ++ [note], p.names⟩ := by
  unfold constant
  cases c.fuse <;> rfl

/-- A constant is written together with what is held back before it, at once or by the next flush;
names may be drawn in between. -/
theorem constant_then_flush {c : Config} {note : Note} {bytes : Bytes} (hbytes : bytes ≠ [])
    {p p₁ p₂ : Pending} {first second : Body}
    (hconstant : constant c note bytes p = .ok (first, p₁)) {names : NameSupply}
    (hflush : flush { p₁ with names } = .ok (second, p₂)) :
    first ++ second =
      [.line (.notes (p.notes ++ [note])), .line (.literal (p.fusion.pending ++ bytes))] := by
  have hheld : (p.fusion.pending ++ bytes).isEmpty = false := by simp [hbytes]
  have hnoted : (p.notes ++ [note]).isEmpty = false := by simp
  rw [constant_eq] at hconstant
  split at hconstant
  · obtain ⟨rfl, rfl⟩ := Prod.mk.inj (Except.ok.inj hconstant)
    rw [flush_eq] at hflush
    obtain ⟨rfl, -⟩ := Prod.mk.inj (Except.ok.inj hflush)
    simp [Fusion.append, hheld, hnoted]
  · rw [flush_eq] at hconstant
    obtain ⟨rfl, rfl⟩ := Prod.mk.inj (Except.ok.inj hconstant)
    -- nothing is left for the flush
    rw [flush_eq] at hflush
    obtain ⟨rfl, -⟩ := Prod.mk.inj (Except.ok.inj hflush)
    simp [Fusion.append, Fusion.empty, hheld, hnoted]

/-- The code of an array that is no byte string. -/
theorem loopsBehind_array {c : Config} {info : ArrayInfo} {element : Shape} {size : Nat}
    (hsize : info.resolved = some size) (hwide : element.isSingleByte = false) {v : Var}
    {p p' : Pending} {code : Body}
    (h : shapeCode c (.array info element) v p = .ok (code, p')) :
    LoopsBehind p size (Wire.arrayHeader (UInt32.ofNat size)) v.place code := by
  obtain ⟨n, q, hlift, hrun⟩ := run_bind_eq_ok h
  obtain ⟨hresolved, rfl⟩ := run_lift_eq_ok hlift
  rw [ArrayInfo.resolvedSize, hsize] at hresolved
  obtain rfl := Except.ok.inj hresolved
  simp only [hwide, Bool.false_eq_true, if_false] at hrun
  obtain ⟨first, p₁, hconstant, hrun⟩ := run_bind_eq_ok hrun
  obtain ⟨number, p₂, hdraw, hrun⟩ := run_bind_eq_ok hrun
  obtain ⟨loop, p₃, hloop, hrun⟩ := run_bind_eq_ok hrun
  obtain ⟨second, p₄, hflush, hloop⟩ := run_bind_eq_ok hloop
  obtain ⟨inside, p₅, -, hloop⟩ := run_bind_eq_ok hloop
  obtain ⟨after, p₆, -, hloop⟩ := run_bind_eq_ok hloop
  obtain ⟨rfl, -⟩ := run_pure_eq_ok hloop
  obtain ⟨rfl, -⟩ := run_pure_eq_ok hrun
  obtain rfl := (Prod.mk.inj (Except.ok.inj hdraw)).2
  have hwritten := constant_then_flush
    (Wire.ne_nil_of_readToken (Wire.readToken_arrayHeader _)) hconstant hflush
  refine ⟨⟨"za", number⟩, inside ++ after, ?_⟩
  rw [← List.append_assoc, hwritten]
  rfl

end Marshal

/-! ## The encoder -/

namespace Encoder

/-- What the encoder adds for an array that is no byte string: a header, then the elements. -/
theorem appends_arrayHeader (e : Encoder) {info : ArrayInfo} {element : Shape} {size : Nat}
    (hsize : info.resolved = some size) (hwide : element.isSingleByte = false)
    {depth : Nat} {items : List Value} {o o' : Output}
    (h : e.shape (depth + 1) (.array info element) (.array items) o = .ok o') :
    items.length = size ∧ ∃ elements,
      Format.gather (Planned.bytes e.table e.protocol depth element) items = .ok elements ∧
        o'.contents = o.contents ++ (Wire.arrayHeader (UInt32.ofNat size) ++ elements) := by
  have happends := appends_planned e (depth + 1) (.array info element) (.array items) o
  rw [h] at happends
  generalize hrun : Planned.bytes e.table e.protocol (depth + 1) (.array info element)
    (.array items) = run at happends
  cases happends with
  | @ok _ bytes hcontents =>
    have harray : Format.arrayNode (Planned.bytes e.table e.protocol depth) info element
        (.array items) = .ok bytes := hrun
    simp only [Format.arrayNode, ArrayInfo.resolvedSize, hsize, hwide, ok_bind,
      Bool.false_eq_true, if_false] at harray
    split at harray
    · rename_i hlength
      obtain ⟨elements, hgather, hbytes⟩ := bind_eq_ok harray
      obtain rfl := Except.ok.inj hbytes
      exact ⟨hlength, elements, hgather, hcontents⟩
    · cases harray

end Encoder

/-! ## Arrays of a finalized identity -/

namespace Shape

theorem Everywhere.mono {P Q : Shape → Prop} (h : ∀ s, P s → Q s) {s : Shape}
    (hs : s.Everywhere P) : s.Everywhere Q := by
  induction s with
  | struct info fields ih =>
    exact ⟨h _ hs.1, everywhereIn_iff.2 fun f hf => ih f hf (hs.field hf)⟩
  | map key value ih => exact ⟨h _ hs.1, ih hs.2⟩
  | slice element ih => exact ⟨h _ hs.1, ih hs.2⟩
  | array info element ih => exact ⟨h _ hs.1, ih hs.2⟩
  | ptr pointee ih => exact ⟨h _ hs.1, ih hs.2⟩
  | base info => exact h _ hs

/-- The size of an array, and the header that is written for it wherever the array stands: in
front of the loop that generated code has for it, and by the encoder for a value of that size. -/
structure HasHeader (info : ArrayInfo) (element : Shape) (size : Nat) (header : Bytes) : Prop where
  sized : info.resolved = some size
  generated : ∀ c v p code p', Marshal.shapeCode c (.array info element) v p = .ok (code, p') →
    Marshal.LoopsBehind p size header v.place code
  encoded : ∀ (e : Encoder) depth items o o',
    e.shape (depth + 1) (.array info element) (.array items) o = .ok o' →
      items.length = size ∧ ∃ elements,
        Format.gather (Planned.bytes e.table e.protocol depth element) items = .ok elements ∧
          o'.contents = o.contents ++ (header ++ elements)

end Shape

namespace Pipeline

/-- Each array of a finalized identity that is no byte string has a header, the same in generated
code and from the encoder. It tells the low 32 bits of the array's size, and so it tells the size
exactly when there are no more bits. -/
theorem finalize_header_tells_low_bits (d : Directives) (name : String) (s r : Shape)
    (h : (standard d).finalize name s = some r) :
    r.Everywhere fun node => ∀ info element, node = .array info element →
      element.isSingleByte = false → ∃ size header, Shape.HasHeader info element size header ∧
        Wire.Tells header (size % UInt32.size) ∧ (Wire.Tells header size ↔ size < UInt32.size) := by
  refine Shape.Everywhere.mono ?_ (isFinal_of_finalize h).1
  rintro node hfinal info element rfl hwide
  obtain ⟨size, hsize⟩ := Option.isSome_iff_exists.1 hfinal
  refine ⟨size, Wire.arrayHeader (UInt32.ofNat size), ⟨hsize, ?_, ?_⟩, Wire.tells_arrayHeader size,
    Wire.tells_arrayHeader_iff size⟩
  · intro c v p code p' hcode
    exact Marshal.loopsBehind_array hsize hwide hcode
  · intro e depth items o o' hrun
    exact e.appends_arrayHeader hsize hwide hrun

/-- The positions of a fleet of ships, as a type declares it or finalized. -/
def fleet (size : String) (resolved : Option Nat) : Shape :=
  .array ⟨size, resolved⟩ (.ofKind .int64)

/-- The first size whose header has 32 bits for it, and a size of 33 bits, whose header tells the
rest of its division by 2³². -/
theorem fleet_headers :
    (standard {}).finalize "Fleet" (fleet "65536" none) = some (fleet "65536" (some 65536)) ∧
      (∃ header, Shape.HasHeader ⟨"65536", some 65536⟩ (.ofKind .int64) 65536 header ∧
        Wire.Tells header 65536) ∧
      (standard {}).finalize "Fleet" (fleet "4294967301" none) =
        some (fleet "4294967301" (some 4294967301)) ∧
      ∃ header, Shape.HasHeader ⟨"4294967301", some 4294967301⟩ (.ofKind .int64) 4294967301 header ∧
        Wire.Tells header 5 := by
  have hsmall : (standard {}).finalize "Fleet" (fleet "65536" none) =
      some (fleet "65536" (some 65536)) := rfl
  have hlarge : (standard {}).finalize "Fleet" (fleet "4294967301" none) =
      some (fleet "4294967301" (some 4294967301)) := rfl
  refine ⟨hsmall, ?_, hlarge, ?_⟩
  · obtain ⟨size, header, hheader, -, htells⟩ :=
      (finalize_header_tells_low_bits {} "Fleet" _ _ hsmall).here _ _ rfl rfl
    obtain rfl := Option.some.inj hheader.sized
    exact ⟨header, hheader, htells.2 (by decide)⟩
  · obtain ⟨size, header, hheader, hlow, -⟩ :=
      (finalize_header_tells_low_bits {} "Fleet" _ _ hlarge).here _ _ rfl rfl
    obtain rfl := Option.some.inj hheader.sized
    exact ⟨header, hheader, hlow⟩

end Pipeline

namespace Encoder

theorem gather_replicate {α : Type} {f : α → Except Fault Bytes} {x : α} {b : Bytes}
    (h : f x = .ok b) (n : Nat) :
    Format.gather f (List.replicate n x) = .ok (List.replicate n b).flatten := by
  induction n with
  | zero => rfl
  | succ n ih =>
    rw [List.replicate_succ, Format.gather, h, ih]
    rfl

/-- A fleet of ships that are all in the same place. -/
theorem encodeShape_fleet (p : Protocol) (fuse : Bool) (size : String) (n : Nat) :
    (Encoder.mk .empty p fuse).encodeShape (Pipeline.fleet size (some n))
      (.array (List.replicate n (.int 7))) =
        .ok (Wire.arrayHeader (UInt32.ofNat n) ++ (List.replicate n [7]).flatten) := by
  have hship : Planned.bytes .empty p 1 (.ofKind .int64) (.int 7) = .ok [7] := rfl
  have hrun : Planned.bytes .empty p 2 (Pipeline.fleet size (some n))
      (.array (List.replicate n (.int 7))) =
        .ok (Wire.arrayHeader (UInt32.ofNat n) ++ (List.replicate n [7]).flatten) := by
    change Format.arrayNode (Planned.bytes .empty p 1) ⟨size, some n⟩ (.ofKind .int64)
      (.array (List.replicate n (.int 7))) = _
    have hwide : (Shape.ofKind .int64).isSingleByte = false := rfl
    simp only [Format.arrayNode, ArrayInfo.resolvedSize, hwide, ok_bind, List.length_replicate,
      gather_replicate hship, Bool.false_eq_true, if_false, if_true]
    rfl
  have hbudget := (Planned.unrolls_bytes .empty p).depthBudget (e := ⟨.empty, p, fuse⟩)
    (s := Pipeline.fleet size (some n)) (by rw [hrun]; intro h; cases h)
  rw [encodeShape_eq_planned, hbudget, hrun]

/-- An array of 2³² elements is accepted, and noted as such above its header. But the header tells
that there are none, in generated code and from the encoder. -/
theorem fleet_header_tells_zero :
    (Pipeline.standard {}).finalize "Fleet" (Pipeline.fleet "4294967296" none) =
        some (Pipeline.fleet "4294967296" (some 4294967296)) ∧
      Marshal.body {} (Pipeline.fleet "4294967296" (some 4294967296)) = .ok [
        .line (.notes [.arrayHeader 4294967296]), .line (.literal [0x90]),
        .block (.items ⟨"za", 1⟩ .wrapped) [
          .line (.scalar .int64 (.value (.ofLocal ⟨"za", 1⟩)))]] ∧
      (∃ ships : List Value, ships.length = 4294967296 ∧ ∃ elements,
        (Encoder.mk .empty .fast true).encodeShape (Pipeline.fleet "4294967296" (some 4294967296))
          (.array ships) = .ok ([0x90] ++ elements)) ∧
      Wire.Tells [0x90] 0 ∧ ¬Wire.Tells [0x90] 4294967296 := by
  refine ⟨rfl, rfl, ⟨List.replicate 4294967296 (.int 7), List.length_replicate, _,
    encodeShape_fleet .fast true "4294967296" 4294967296⟩, rfl, ?_⟩
  exact fun h => absurd ((Wire.tells_arrayHeader_iff 4294967296).1 h) (by decide)

end Encoder

end Packwright
