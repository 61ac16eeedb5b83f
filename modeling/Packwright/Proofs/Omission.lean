import Packwright.Proofs.Faults
import Packwright.Proofs.Planned
import Packwright.Proofs.Unambiguous

/-
  What a struct leaves out, and what that hides. The rule that decides whether a field is empty
  knows less than its shape: one rule serves all kinds of numbers, and one everything that has a
  length. `OwnEmpty` is the empty value that a shape can encode, `StrayEmpty` one that only its
  rule takes for empty, and there is no third kind (`holds_iff`).

  So a value that does not fit its field is reported, as the mismatch that it is, unless it is a
  stray empty value in a field that may be left out; such a value is dropped without a word
  (`omission_hides_only_strays`).
-/

namespace Packwright

/-! ## Empty values -/

/-- A number that is zero. Both zeros of a floating point format count. -/
inductive Value.IsZero : Value → Prop where
  | int : IsZero (.int 0)
  | uint : IsZero (.uint 0)
  | float32 {bits : UInt32} (zero : FloatBits.isZero32 bits = true) : IsZero (.float32 bits)
  | float64 {bits : UInt64} (zero : FloatBits.isZero64 bits = true) : IsZero (.float64 bits)

/-- A value that has a length, and it is zero. -/
inductive Value.IsVoid : Value → Prop where
  | str : IsVoid (.str "")
  | bin : IsVoid (.bin [])
  | array : IsVoid (.array [])
  | map : IsVoid (.map [])

/-- The empty values of a shape among those that it can encode. -/
inductive OwnEmpty : Shape → Value → Prop where
  | map {key : KeyKind} {value : Shape} : OwnEmpty (.map key value) (.map [])
  | slice {element : Shape} : OwnEmpty (.slice element) (.array [])
  | ptr {pointee : Shape} : OwnEmpty (.ptr pointee) .nil
  | bool {info : BaseInfo} (kind : info.kind = .bool) : OwnEmpty (.base info) (.bool false)
  | string {info : BaseInfo} (kind : info.kind = .string) : OwnEmpty (.base info) (.str "")
  | bytes {info : BaseInfo} (kind : info.kind = .bytes) : OwnEmpty (.base info) (.bin [])
  | time {info : BaseInfo} (kind : info.kind = .time) : OwnEmpty (.base info) (.time 0 0)
  | signed {info : BaseInfo} (kind : info.kind.isSigned = true) : OwnEmpty (.base info) (.int 0)
  | unsigned {info : BaseInfo} (kind : info.kind.isUnsigned = true) :
      OwnEmpty (.base info) (.uint 0)
  | float32 {info : BaseInfo} {bits : UInt32} (kind : info.kind.isFloat = true)
      (zero : FloatBits.isZero32 bits = true) : OwnEmpty (.base info) (.float32 bits)
  | float64 {info : BaseInfo} {bits : UInt64} (kind : info.kind.isFloat = true)
      (zero : FloatBits.isZero64 bits = true) : OwnEmpty (.base info) (.float64 bits)

/-- A zero of another kind of number than the shape is for, or something else of length zero. -/
inductive StrayEmpty : Shape → Value → Prop where
  | map {key : KeyKind} {value : Shape} {v : Value} (void : v.IsVoid) (other : v ≠ .map []) :
      StrayEmpty (.map key value) v
  | slice {element : Shape} {v : Value} (void : v.IsVoid) (other : v ≠ .array []) :
      StrayEmpty (.slice element) v
  | string {info : BaseInfo} {v : Value} (kind : info.kind = .string) (void : v.IsVoid)
      (other : v ≠ .str "") : StrayEmpty (.base info) v
  | bytes {info : BaseInfo} {v : Value} (kind : info.kind = .bytes) (void : v.IsVoid)
      (other : v ≠ .bin []) : StrayEmpty (.base info) v
  | signed {info : BaseInfo} {v : Value} (kind : info.kind.isSigned = true) (zero : v.IsZero)
      (other : v ≠ .int 0) : StrayEmpty (.base info) v
  | unsigned {info : BaseInfo} {v : Value} (kind : info.kind.isUnsigned = true) (zero : v.IsZero)
      (other : v ≠ .uint 0) : StrayEmpty (.base info) v
  | float {info : BaseInfo} {v : Value} (kind : info.kind.isFloat = true)
      (integer : v = .int 0 ∨ v = .uint 0) : StrayEmpty (.base info) v

namespace Emptiness

theorem holds_zeroNumber {v : Value} : zeroNumber.holds v = true ↔ v.IsZero := by
  constructor
  · intro h
    cases v with
    | int n =>
      obtain rfl : n = 0 := beq_iff_eq.1 h
      exact .int
    | uint n =>
      obtain rfl : n = 0 := beq_iff_eq.1 h
      exact .uint
    | float32 bits => exact .float32 h
    | float64 bits => exact .float64 h
    | _ => cases h
  · rintro (_ | _ | h | h)
    · rfl
    · rfl
    · exact h
    · exact h

theorem holds_emptyLength {v : Value} : emptyLength.holds v = true ↔ v.IsVoid := by
  constructor
  · intro h
    cases v with
    | str s =>
      obtain rfl : s = "" := String.isEmpty_iff.1 h
      exact .str
    | bin data =>
      obtain rfl := List.isEmpty_iff.1 h
      exact .bin
    | array items =>
      obtain rfl := List.isEmpty_iff.1 h
      exact .array
    | map entries =>
      obtain rfl := List.isEmpty_iff.1 h
      exact .map
    | _ => cases h
  · rintro (_ | _ | _ | _) <;> rfl

theorem of_base (info : BaseInfo) : of (.base info) = of (.ofKind info.kind) := rfl

theorem of_number {k : Kind} (h : k.isSigned = true ∨ k.isUnsigned = true ∨ k.isFloat = true) :
    of (.ofKind k) = zeroNumber := by
  revert h
  cases k <;> decide

/-- The kinds of scalars, by their rules. -/
theorem of_ofKind_cases (k : Kind) :
    of (.ofKind k) = never ∨ (k = .bool ∧ of (.ofKind k) = isFalse) ∨
      (k = .time ∧ of (.ofKind k) = zeroTime) ∨
      ((k = .string ∨ k = .bytes) ∧ of (.ofKind k) = emptyLength) ∨
      ((k.isSigned = true ∨ k.isUnsigned = true ∨ k.isFloat = true) ∧
        of (.ofKind k) = zeroNumber) := by
  cases k <;> decide

theorem own_or_stray_of_base {info : BaseInfo} {v : Value}
    (h : (of (.base info)).holds v = true) :
    OwnEmpty (.base info) v ∨ StrayEmpty (.base info) v := by
  rw [of_base] at h
  rcases of_ofKind_cases info.kind with hr | ⟨hk, hr⟩ | ⟨hk, hr⟩ | ⟨hk, hr⟩ | ⟨hk, hr⟩
  · rw [hr, holds_never] at h
    cases h
  · rw [hr] at h
    cases v with
    | bool b =>
      obtain rfl : b = false := Bool.not_eq_true' _ ▸ h
      exact .inl (.bool hk)
    | _ => cases h
  · rw [hr] at h
    cases v with
    | time secs nanos =>
      obtain ⟨hsecs, hnanos⟩ := Bool.and_eq_true_iff.1 h
      obtain rfl : secs = 0 := beq_iff_eq.1 hsecs
      obtain rfl : nanos = 0 := beq_iff_eq.1 hnanos
      exact .inl (.time hk)
    | _ => cases h
  · rw [hr, holds_emptyLength] at h
    rcases hk with hk | hk
    · by_cases hv : v = .str ""
      · exact .inl (hv ▸ .string hk)
      · exact .inr (.string hk h hv)
    · by_cases hv : v = .bin []
      · exact .inl (hv ▸ .bytes hk)
      · exact .inr (.bytes hk h hv)
  · rw [hr, holds_zeroNumber] at h
    rcases hk with hk | hk | hk
    · by_cases hv : v = .int 0
      · exact .inl (hv ▸ .signed hk)
      · exact .inr (.signed hk h hv)
    · by_cases hv : v = .uint 0
      · exact .inl (hv ▸ .unsigned hk)
      · exact .inr (.unsigned hk h hv)
    · cases h with
      | int => exact .inr (.float hk (.inl rfl))
      | uint => exact .inr (.float hk (.inr rfl))
      | float32 zero => exact .inl (.float32 hk zero)
      | float64 zero => exact .inl (.float64 hk zero)

theorem own_or_stray {s : Shape} {v : Value} (h : (of s).holds v = true) :
    OwnEmpty s v ∨ StrayEmpty s v := by
  cases s with
  | struct info fields => exact absurd h (by rw [of, holds_never]; decide)
  | array info element => exact absurd h (by rw [of, holds_never]; decide)
  | map key value =>
    have hvoid : v.IsVoid := holds_emptyLength.1 h
    by_cases hv : v = .map []
    · exact .inl (hv ▸ .map)
    · exact .inr (.map hvoid hv)
  | slice element =>
    have hvoid : v.IsVoid := holds_emptyLength.1 h
    by_cases hv : v = .array []
    · exact .inl (hv ▸ .slice)
    · exact .inr (.slice hvoid hv)
  | ptr pointee =>
    cases v with
    | nil => exact .inl .ptr
    | _ => cases h
  | base info => exact own_or_stray_of_base h

theorem holds_of_own {s : Shape} {v : Value} (h : OwnEmpty s v) : (of s).holds v = true := by
  cases h with
  | map | slice | ptr => rfl
  | bool kind | string kind | bytes kind | time kind => rw [of_base, kind]; rfl
  | signed kind =>
    rw [of_base, of_number (.inl kind)]
    rfl
  | unsigned kind =>
    rw [of_base, of_number (.inr (.inl kind))]
    rfl
  | float32 kind zero | float64 kind zero =>
    rw [of_base, of_number (.inr (.inr kind))]
    exact zero

theorem holds_of_stray {s : Shape} {v : Value} (h : StrayEmpty s v) : (of s).holds v = true := by
  cases h with
  | map void other | slice void other => exact holds_emptyLength.2 void
  | string kind void other | bytes kind void other =>
    rw [of_base, kind]
    exact holds_emptyLength.2 void
  | signed kind zero other =>
    rw [of_base, of_number (.inl kind)]
    exact holds_zeroNumber.2 zero
  | unsigned kind zero other =>
    rw [of_base, of_number (.inr (.inl kind))]
    exact holds_zeroNumber.2 zero
  | float kind integer =>
    rw [of_base, of_number (.inr (.inr kind))]
    rcases integer with rfl | rfl
    · rfl
    · rfl

/-- A rule holds of the empty values that its shape can encode, and of strays. -/
theorem holds_iff {s : Shape} {v : Value} :
    (of s).holds v = true ↔ OwnEmpty s v ∨ StrayEmpty s v :=
  ⟨own_or_stray, fun h => h.elim holds_of_own holds_of_stray⟩

end Emptiness

/-! ## Encodings of empty values -/

namespace Encoder

theorem scalar_own {info : BaseInfo} {v : Value} (h : OwnEmpty (.base info) v) :
    ∃ b, scalar info.kind v = .ok b := by
  cases h with
  | bool kind | string kind | bytes kind | time kind => rw [kind]; exact ⟨_, rfl⟩
  | signed kind | unsigned kind | float32 kind _ | float64 kind _ =>
    generalize info.kind = k at kind ⊢
    cases k <;> first | exact ⟨_, rfl⟩ | cases kind

theorem scalar_stray {info : BaseInfo} {v : Value} (h : StrayEmpty (.base info) v) :
    scalar info.kind v = .error (wrongKind info.kind.word v) := by
  cases h with
  | string kind void other =>
    rw [kind]
    cases void with
    | str => exact absurd rfl other
    | _ => rfl
  | bytes kind void other =>
    rw [kind]
    cases void with
    | bin => exact absurd rfl other
    | _ => rfl
  | signed kind zero other =>
    generalize info.kind = k at kind ⊢
    cases zero with
    | int => exact absurd rfl other
    | _ => cases k <;> first | rfl | cases kind
  | unsigned kind zero other =>
    generalize info.kind = k at kind ⊢
    cases zero with
    | uint => exact absurd rfl other
    | _ => cases k <;> first | rfl | cases kind
  | float kind integer =>
    generalize info.kind = k at kind ⊢
    rcases integer with rfl | rfl
    · cases k <;> first | rfl | cases kind
    · cases k <;> first | rfl | cases kind

/-- A rule that says anything of a scalar is not that of an identifier. -/
theorem kind_ne_identifier {info : BaseInfo} {v : Value}
    (h : (Emptiness.of (.base info)).holds v = true) : info.kind ≠ .identifier := by
  intro hk
  rw [Emptiness.of_base, hk] at h
  exact absurd h (by rw [show Emptiness.of (.ofKind .identifier) = .never from rfl,
    Emptiness.holds_never]; decide)

theorem encodeShape_scalar (e : Encoder) {info : BaseInfo} (h : info.kind ≠ .identifier)
    (v : Value) : e.encodeShape (.base info) v = scalar info.kind v := by
  rw [encodeShape_eq_planned]
  exact if_neg h

/-- An empty value of the shape's own kind can be encoded. -/
theorem encodeShape_own (e : Encoder) {s : Shape} {v : Value} (h : OwnEmpty s v) :
    ∃ b, e.encodeShape s v = .ok b := by
  rw [encodeShape_eq_planned]
  cases s with
  | struct info fields => cases h
  | array info element => cases h
  | map key value =>
    cases h
    exact ⟨_, rfl⟩
  | slice element =>
    cases h
    exact ⟨_, rfl⟩
  | ptr pointee =>
    cases h
    exact ⟨_, rfl⟩
  | base info =>
    rw [← encodeShape_eq_planned,
      encodeShape_scalar e (kind_ne_identifier (Emptiness.holds_of_own h))]
    exact scalar_own h

/-- A stray empty value cannot be encoded. -/
theorem encodeShape_stray (e : Encoder) {s : Shape} {v : Value} (h : StrayEmpty s v) :
    ∃ expected, e.encodeShape s v = .error (wrongKind expected v) := by
  rw [encodeShape_eq_planned]
  cases s with
  | struct info fields => cases h
  | array info element => cases h
  | ptr pointee => cases h
  | map key value =>
    cases h with
    | map void other =>
      cases void with
      | map => exact absurd rfl other
      | _ => exact ⟨_, rfl⟩
  | slice element =>
    cases h with
    | slice void other =>
      cases void with
      | array => exact absurd rfl other
      | _ => exact ⟨_, rfl⟩
  | base info =>
    rw [← encodeShape_eq_planned,
      encodeShape_scalar e (kind_ne_identifier (Emptiness.holds_of_stray h))]
    exact ⟨_, scalar_stray h⟩

end Encoder

/-! ## Records -/

namespace Format

theorem gather_eq_ok {α : Type} {f : α → Except Fault Bytes} {xs : List α} {b : Bytes}
    (h : gather f xs = .ok b) : ∀ x ∈ xs, ∃ a, f x = .ok a := by
  induction xs generalizing b with
  | nil => exact List.forall_mem_nil _
  | cons x rest ih =>
    obtain ⟨a, as, ha, has, -⟩ := gather_cons_eq_ok h
    exact List.forall_mem_cons.2 ⟨⟨a, ha⟩, ih has⟩

/-- Where only one fault occurs, that is the fault of the whole. -/
theorem gather_eq_error_of {α : Type} {f : α → Except Fault Bytes} {xs : List α} {fault : Fault}
    {x : α} (hx : x ∈ xs) (hfault : f x = .error fault)
    (honly : ∀ y ∈ xs, f y = .error fault ∨ ∃ a, f y = .ok a) : gather f xs = .error fault := by
  cases hgather : gather f xs with
  | ok b =>
    obtain ⟨a, ha⟩ := gather_eq_ok hgather x hx
    rw [hfault] at ha
    cases ha
  | error fault' =>
    obtain ⟨y, hy, hfault'⟩ := gather_eq_error hgather
    rcases honly y hy with hsame | ⟨a, ha⟩
    · rw [← hfault', hsame]
    · rw [hfault'] at ha
      cases ha

section

variable {p : Protocol} {info : StructInfo} {fields : List Field}
  {part : Shape → Value → Except Fault Bytes} {values values' : List (String × Value)} {b : Bytes}

theorem entryBytes_congr {key : Field → Bytes} {out out' : Field → Bool} {w w' : Field → Value}
    {f : Field} (h : (w f = w' f ∧ out f = out' f) ∨ (out f = true ∧ out' f = true)) :
    entryBytes key part out w f = entryBytes key part out' w' f := by
  unfold entryBytes
  rcases h with ⟨hw, hout⟩ | ⟨hout, hout'⟩
  · rw [hw, hout]
  · rw [if_pos hout, if_pos hout']

theorem structStart_cases (p : Protocol) (info : StructInfo) (fields : List Field)
    (values : List (String × Value)) :
    (∃ start, Encoder.structStart p info fields values = .ok start) ∨
      (Encoder.structStart p info fields values = .error .overflow ∧
        UInt32.size ≤ (liveFields fields).length + 1) := by
  cases hstart : Encoder.structStart p info fields values with
  | ok start => exact .inl ⟨start, rfl⟩
  | error fault =>
    right
    unfold Encoder.structStart at hstart
    split at hstart
    · cases hstart
    · obtain ⟨rfl, hmany⟩ := mapStart_eq_error hstart
      refine ⟨rfl, Nat.le_trans hmany (Nat.succ_le_succ ?_)⟩
      calc ((Encoder.heldFields fields values).filter fun x => !omits p x.1 x.2).length
          ≤ (Encoder.heldFields fields values).length := List.length_filter_le _ _
        _ = (liveFields fields).length := by rw [Encoder.heldFields, List.length_map]

theorem structStart_congr (hs : (Shape.struct info fields).IsFinalNode)
    (h : ∀ f ∈ liveFields fields, leavesOut p info f (Encoder.heldFor values f) =
      leavesOut p info f (Encoder.heldFor values' f)) :
    Encoder.structStart p info fields values = Encoder.structStart p info fields values' := by
  unfold Encoder.structStart
  cases ht : info.asTuple with
  | true => rfl
  | false =>
    rw [if_neg (by decide), if_neg (by decide), countP_present hs ht, countP_present hs ht]
    refine congrArg (mapStart p info) (List.countP_congr fun f hf => ?_)
    rw [h f hf]

/-- Each live field of a struct that is encoded is left out, or its value is encoded. -/
theorem field_of_structNode (hs : (Shape.struct info fields).IsFinalNode)
    (h : structNode p part info fields values = .ok b) {f : Field} (hf : f ∈ liveFields fields) :
    ∃ w, Assoc.get? values f.info.name = some w ∧
      (leavesOut p info f w = true ∨ ∃ a, part f.value w = .ok a) := by
  obtain ⟨-, hheld, start, rest, -, hentries, -⟩ := structNode_eq_ok hs h
  refine ⟨_, Encoder.get?_heldFor (hheld f hf), ?_⟩
  cases hout : leavesOut p info f (Encoder.heldFor values f) with
  | true => exact .inl rfl
  | false =>
    obtain ⟨a, ha⟩ := gather_eq_ok hentries f hf
    obtain ⟨c, hc, -⟩ := entryBytes_eq_ok ha hout
    exact .inr ⟨c, hc⟩

/-- A struct is encoded whatever it leaves out. -/
theorem structNode_of_leftOut (hs : (Shape.struct info fields).IsFinalNode)
    (h : structNode p part info fields values = .ok b)
    (hsame : ∀ f ∈ liveFields fields,
      Assoc.get? values' f.info.name = Assoc.get? values f.info.name ∨
        ∃ w w', Assoc.get? values f.info.name = some w ∧ leavesOut p info f w = true ∧
          Assoc.get? values' f.info.name = some w' ∧ leavesOut p info f w' = true) :
    structNode p part info fields values' = .ok b := by
  obtain ⟨hkeys, hheld, -⟩ := structNode_eq_ok hs h
  have heach : ∀ f ∈ liveFields fields, (Assoc.get? values' f.info.name).isSome ∧
      ((Encoder.heldFor values' f = Encoder.heldFor values f ∧
          leavesOut p info f (Encoder.heldFor values' f) =
            leavesOut p info f (Encoder.heldFor values f)) ∨
        (leavesOut p info f (Encoder.heldFor values' f) = true ∧
          leavesOut p info f (Encoder.heldFor values f) = true)) := by
    intro f hf
    rcases hsame f hf with heq | ⟨w, w', hw, hout, hw', hout'⟩
    · have hheld' : Encoder.heldFor values' f = Encoder.heldFor values f := by
        rw [Encoder.heldFor, Encoder.heldFor, heq]
      exact ⟨heq ▸ hheld f hf, .inl ⟨hheld', by rw [hheld']⟩⟩
    · rw [Encoder.heldFor, Encoder.heldFor, hw, hw']
      exact ⟨rfl, .inr ⟨hout', hout⟩⟩
  have hstart := structStart_congr hs fun f hf =>
    (heach f hf).2.elim (fun h => h.2) fun h => h.1.trans h.2.symm
  rw [structNode_eq_entries hs hkeys fun f hf => (heach f hf).1, hstart,
    gather_congr (g := entryBytes (slotKey p info) part
      (fun f => leavesOut p info f (Encoder.heldFor values f)) (Encoder.heldFor values))
      fun f hf => entryBytes_congr (heach f hf).2, ← structNode_eq_entries hs hkeys hheld, h]

/-- One field with a value that cannot be encoded makes a struct fail as that value does, unless
there are too many fields to begin with. -/
theorem structNode_of_fault (hs : (Shape.struct info fields).IsFinalNode)
    (h : structNode p part info fields values = .ok b) {f : Field} (hf : f ∈ liveFields fields)
    {w : Value} {fault : Fault} (hw : Assoc.get? values' f.info.name = some w)
    (hout : leavesOut p info f w = false) (hfault : part f.value w = .error fault)
    (hothers : ∀ g ∈ liveFields fields, g ≠ f →
      Assoc.get? values' g.info.name = Assoc.get? values g.info.name) :
    structNode p part info fields values' = .error fault ∨
      (structNode p part info fields values' = .error .overflow ∧
        UInt32.size ≤ (liveFields fields).length + 1) := by
  obtain ⟨hkeys, hheld, start, rest, -, hentries, -⟩ := structNode_eq_ok hs h
  have hheld' : ∀ g ∈ liveFields fields, (Assoc.get? values' g.info.name).isSome := by
    intro g hg
    by_cases hgf : g = f
    · rw [hgf, hw]
      rfl
    · rw [hothers g hg hgf]
      exact hheld g hg
  have hfor : Encoder.heldFor values' f = w := by
    rw [Encoder.heldFor, hw]
    rfl
  have hentry : entryBytes (slotKey p info) part
      (fun f => leavesOut p info f (Encoder.heldFor values' f)) (Encoder.heldFor values') f =
        .error fault := by
    simp only [entryBytes, hfor, hout, hfault]
    rfl
  have hgather := gather_eq_error_of hf hentry fun g hg => by
    by_cases hgf : g = f
    · exact .inl (hgf ▸ hentry)
    · have hsame : Encoder.heldFor values g = Encoder.heldFor values' g := by
        rw [Encoder.heldFor, Encoder.heldFor, hothers g hg hgf]
      obtain ⟨a, ha⟩ := gather_eq_ok hentries g hg
      refine .inr ⟨a, ?_⟩
      rw [← ha]
      exact (entryBytes_congr (.inl ⟨hsame, by rw [hsame]⟩)).symm
  rw [structNode_eq_entries hs hkeys hheld', hgather]
  rcases structStart_cases p info fields values' with ⟨start', hstart⟩ | ⟨hstart, hmany⟩
  · rw [hstart]
    exact .inl rfl
  · rw [hstart]
    exact .inr ⟨rfl, hmany⟩

end

/-- A struct drops the value of a field that could not have been encoded. -/
def Hides (p : Protocol) (info : StructInfo) (f : Field) (w : Value) : Prop :=
  isConditional p info f = true ∧ StrayEmpty f.value w

end Format

namespace Encoder

open Format (liveFields leavesOut Hides)

/-- What the encoding of a record tells about the values of its live fields. -/
structure Discloses (e : Encoder) (info : StructInfo) (fields : List Field)
    (values : List (String × Value)) (b : Bytes) : Prop where
  /-- Each of them can be encoded, or is hidden. -/
  sound : ∀ f ∈ liveFields fields, ∃ w, Assoc.get? values f.info.name = some w ∧
    ((∃ a, e.encodeShape f.value w = .ok a) ∨ Hides e.protocol info f w)
  /-- If one of them is replaced by a value that cannot be encoded and is not hidden, the record
  fails as that value does, unless a field more than before makes its header overflow. -/
  reported : ∀ f ∈ liveFields fields, ∀ w fault values',
    Assoc.get? values' f.info.name = some w → e.encodeShape f.value w = .error fault →
    ¬Hides e.protocol info f w →
    (∀ g ∈ liveFields fields, g ≠ f →
      Assoc.get? values' g.info.name = Assoc.get? values g.info.name) →
    e.encodeShape (.struct info fields) (.record values') = .error fault ∨
      (e.encodeShape (.struct info fields) (.record values') = .error .overflow ∧
        UInt32.size ≤ (liveFields fields).length + 1)
  /-- If some that are left out are replaced by others that are, nothing changes. -/
  dropped : ∀ values', (∀ f ∈ liveFields fields,
      Assoc.get? values' f.info.name = Assoc.get? values f.info.name ∨
        ∃ w w', Assoc.get? values f.info.name = some w ∧ leavesOut e.protocol info f w = true ∧
          Assoc.get? values' f.info.name = some w' ∧ leavesOut e.protocol info f w' = true) →
    e.encodeShape (.struct info fields) (.record values') = .ok b

theorem own_or_hides {p : Protocol} {info : StructInfo} {f : Field} {w : Value}
    (h : leavesOut p info f w = true) : OwnEmpty f.value w ∨ Hides p info f w := by
  obtain ⟨hconditional, hholds⟩ := Bool.and_eq_true_iff.1 h
  exact (Emptiness.holds_iff.1 hholds).imp_right fun hstray => ⟨hconditional, hstray⟩

theorem discloses (e : Encoder) (ht : e.table.IsFinal) {info : StructInfo} {fields : List Field}
    (hs : (Shape.struct info fields).IsFinal) {values : List (String × Value)} {b : Bytes}
    (h : e.encodeShape (.struct info fields) (.record values) = .ok b) :
    e.Discloses info fields values b := by
  have hnode (values : List (String × Value)) :
      e.encodeShape (.struct info fields) (.record values) =
        Format.structNode e.protocol e.encodeShape info fields values :=
    e.encodeShape_eq_node ht hs (.record values)
  rw [hnode] at h
  refine ⟨?_, ?_, ?_⟩
  · intro f hf
    obtain ⟨w, hw, hout | hpart⟩ := Format.field_of_structNode hs.here h hf
    · exact ⟨w, hw, (own_or_hides hout).imp_left e.encodeShape_own⟩
    · exact ⟨w, hw, .inl hpart⟩
  · intro f hf w fault values' hw hfault hhides hothers
    have hout : leavesOut e.protocol info f w = false := by
      refine Bool.eq_false_iff.2 fun hout => ?_
      obtain ⟨a, ha⟩ := e.encodeShape_own ((own_or_hides hout).resolve_right hhides)
      rw [hfault] at ha
      cases ha
    rw [hnode]
    exact Format.structNode_of_fault hs.here h hf hw hout hfault hothers
  · intro values' hsame
    rw [hnode]
    exact Format.structNode_of_leftOut hs.here h hsame

/-- A value counts as empty if it is an empty value of its shape, which can be encoded, or a stray
one, which cannot: a zero of another kind of number, or another thing of length zero. In a record,
a value that cannot be encoded is reported unless it is a stray in a field that may be left out; a
stray there is dropped like any value that is left out. -/
theorem omission_hides_only_strays (e : Encoder) (ht : e.table.IsFinal) :
    (∀ s v, (Emptiness.of s).holds v = true ↔ OwnEmpty s v ∨ StrayEmpty s v) ∧
      (∀ s v, OwnEmpty s v → ∃ b, e.encodeShape s v = .ok b) ∧
      (∀ s v, StrayEmpty s v → ∃ expected, e.encodeShape s v = .error (wrongKind expected v)) ∧
      ∀ info fields values b, (Shape.struct info fields).IsFinal →
        e.encodeShape (.struct info fields) (.record values) = .ok b →
          e.Discloses info fields values b :=
  ⟨fun _ _ => Emptiness.holds_iff, fun _ _ => e.encodeShape_own, fun _ _ => e.encodeShape_stray,
    fun _ _ _ _ hs => e.discloses ht hs⟩

def gaugeInfo : StructInfo := { name := "Gauge" }

def gaugeFields : List Field := [.mk { zid := 0, name := "level" } (.ofKind .uint32)]

def gaugeEncoder : Encoder where
  table := Table.ofList [("Gauge", .struct gaugeInfo gaugeFields)]
  protocol := .fast
  fuse := true

theorem isFinal_gauge : (Shape.struct gaugeInfo gaugeFields).IsFinal :=
  ⟨⟨rfl, rfl⟩, trivial, trivial⟩

theorem isFinal_gaugeTable : gaugeEncoder.table.IsFinal := by
  intro name s h
  change (if "Gauge" = name then some (Shape.struct gaugeInfo gaugeFields) else none) = some s at h
  split at h
  · obtain rfl := Option.some.inj h
    exact ⟨isFinal_gauge, rfl⟩
  · cases h

/-- An unsigned zero is left out; a text in its place is reported, and so is a zero of another kind
where it cannot be left out, but in the record it is dropped. -/
theorem encodeShape_gauge : gaugeEncoder.table.IsFinal ∧
    (Shape.struct gaugeInfo gaugeFields).IsFinal ∧
    gaugeEncoder.encodeShape (.struct gaugeInfo gaugeFields) (.record [("level", .uint 0)]) =
      .ok [0x81, 0xff, 0xc4, 5, 71, 97, 117, 103, 101] ∧
    gaugeEncoder.encodeShape (.struct gaugeInfo gaugeFields) (.record [("level", .str "")]) =
      .error (wrongKind "uint32" (.str "")) ∧
    gaugeEncoder.encodeShape (.struct gaugeInfo gaugeFields) (.record [("level", .float64 0)]) =
      .ok [0x81, 0xff, 0xc4, 5, 71, 97, 117, 103, 101] := by
  have hzero : gaugeEncoder.encodeShape (.struct gaugeInfo gaugeFields)
      (.record [("level", .uint 0)]) = .ok [0x81, 0xff, 0xc4, 5, 71, 97, 117, 103, 101] := rfl
  have hall := (omission_hides_only_strays gaugeEncoder isFinal_gaugeTable).2.2.2 gaugeInfo
    gaugeFields _ _ isFinal_gauge hzero
  have hstray : ¬Hides .fast gaugeInfo (.mk { zid := 0, name := "level" } (.ofKind .uint32))
      (.str "") := by
    rintro ⟨-, hstray⟩
    exact absurd (Emptiness.holds_of_stray hstray) (by decide)
  refine ⟨isFinal_gaugeTable, isFinal_gauge, hzero, ?_, ?_⟩
  · refine (hall.reported _ List.mem_cons_self (.str "") _ [("level", .str "")] rfl rfl hstray
      ?_).resolve_right fun h => absurd h.2 (by decide)
    intro g hg hne
    exact absurd (List.mem_singleton.1 hg) hne
  · refine hall.dropped _ fun f hf => .inr ?_
    obtain rfl := List.mem_singleton.1 hf
    exact ⟨.uint 0, .float64 0, rfl, rfl, rfl, rfl⟩

/-- A zero of another kind counts as empty, although it cannot be encoded, and no mismatch is
reported. -/
theorem encode_gauge_hides_mismatch :
    (Emptiness.of (.ofKind .uint32)).holds (.int 0) = true ∧
      gaugeEncoder.encodeShape (.ofKind .uint32) (.int 0) =
        .error (wrongKind "uint32" (.int 0)) ∧
      gaugeEncoder.encode "Gauge" (.record [("level", .int 0)]) =
        .ok [0x81, 0xff, 0xc4, 5, 71, 97, 117, 103, 101] :=
  ⟨rfl, rfl, rfl⟩

end Encoder

end Packwright
