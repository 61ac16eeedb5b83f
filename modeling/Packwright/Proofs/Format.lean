import Packwright.Encoder
import Packwright.Proofs.Induction

/-
  The wire format as a plain recursive definition, without an output or a fusion buffer. `node`
  says what one level of a shape is in terms of the encodings of its parts; `bytes` closes it
  under recursion, to a depth. `Child` names the positions that one level depends on, so a result
  of `node` is settled once its children are (`node_below`). Of any recursion with that property
  (`Unrolls`), more depth never changes a result that was reached (`Unrolls.mono`).
-/

namespace Packwright

theorem ok_bind {ε α β : Type} (a : α) (f : α → Except ε β) : (Except.ok a >>= f) = f a := rfl

theorem error_bind {ε α β : Type} (fault : ε) (f : α → Except ε β) :
    (Except.error fault >>= f) = .error fault := rfl

theorem bind_eq_ok {ε α β : Type} {x : Except ε α} {f : α → Except ε β} {b : β}
    (h : (x >>= f) = .ok b) : ∃ a, x = .ok a ∧ f a = .ok b := by
  cases x with
  | error fault => cases h
  | ok a => exact ⟨a, rfl, h⟩

end Packwright

namespace Packwright.Format

/-! ## One level of the format -/

/-- The fields of a struct that are encoded, in order of declaration. -/
def liveFields (fields : List Field) : List Field :=
  fields.filter fun f => !f.info.skip

theorem liveFields_cons (f : Field) (rest : List Field) :
    liveFields (f :: rest) =
      if f.info.skip then liveFields rest else f :: liveFields rest := by
  cases hskip : f.info.skip <;> simp [liveFields, hskip]

/-- Whether the keys of a struct are zids. A tuple has no keys. -/
def hasIntKeys (p : Protocol) (info : StructInfo) : Bool :=
  !info.asTuple && (p == .fast || info.keyKind == .int64)

/-- The key of a field in a struct that is not a tuple. -/
def key (p : Protocol) (info : StructInfo) (f : Field) : Bytes :=
  if p == .fast || info.keyKind == .int64 then Wire.int f.info.zid else Wire.str f.info.name

/-- Whether a field of a map is left out when it holds a value. -/
def omits (p : Protocol) (f : Field) (v : Value) : Bool :=
  (p == .fast || f.info.omitEmpty) && (Emptiness.of f.value).holds v

/-- Zids that serve as keys have to be there, and no two the same. -/
def checkKeys (p : Protocol) (info : StructInfo) (live : List Field) : Except Fault Unit :=
  if hasIntKeys p info then
    match Layout.checkZids info.name [] live with
    | .ok _ => .ok ()
    | .error e => .error (.error e)
  else .ok ()

/-- A field with the value that a record holds for it. -/
def fieldValue (struct : String) (values : List (String × Value)) (f : Field) :
    Except Fault (Field × Value) :=
  match Assoc.get? values f.info.name with
  | some v => .ok (f, v)
  | none => .error (.error (.missingField struct f.info.name))

/-- What stands before the entries of a struct that is a map of `n` fields. The fast protocol
has one entry more, which identifies the type; the count of fields is a 32-bit number and so has
to be the sum. -/
def mapStart (p : Protocol) (info : StructInfo) (n : Nat) : Except Fault Bytes :=
  match p with
  | .fast =>
    if n % UInt32.size + 1 < UInt32.size then
      .ok (Wire.mapHeader (UInt32.ofNat (1 + n)) ++ (Wire.int (-1) ++ Wire.bin (utf8 info.name)))
    else .error .overflow
  | .msgp2 => .ok (Wire.mapHeader (UInt32.ofNat n))

/-- The encodings of the members of a list, one after another. -/
def gather {α : Type} (f : α → Except Fault Bytes) : List α → Except Fault Bytes
  | [] => .ok []
  | x :: rest => do return (← f x) ++ (← gather f rest)

theorem gather_cons_eq_ok {α : Type} {f : α → Except Fault Bytes} {x : α} {rest : List α}
    {bytes : Bytes} (h : gather f (x :: rest) = .ok bytes) :
    ∃ b bs, f x = .ok b ∧ gather f rest = .ok bs ∧ bytes = b ++ bs := by
  obtain ⟨b, hb, h⟩ := bind_eq_ok h
  obtain ⟨bs, hbs, h⟩ := bind_eq_ok h
  exact ⟨b, bs, hb, hbs, (Except.ok.inj h).symm⟩

theorem gather_congr {α : Type} {f g : α → Except Fault Bytes} {xs : List α}
    (h : ∀ x ∈ xs, f x = g x) : gather f xs = gather g xs := by
  induction xs with
  | nil => rfl
  | cons x rest ih =>
    rw [gather, gather, h x List.mem_cons_self, ih fun y hy => h y (List.mem_cons_of_mem _ hy)]

/-- A struct: an array of its live values, or a map of the entries that are present. -/
def structNode (p : Protocol) (part : Shape → Value → Except Fault Bytes) (info : StructInfo)
    (fields : List Field) (values : List (String × Value)) : Except Fault Bytes := do
  let live := liveFields fields
  checkKeys p info live
  let held ← live.mapM (fieldValue info.name values)
  if info.asTuple then
    return Wire.arrayHeader (UInt32.ofNat live.length) ++
      (← gather (fun x => part x.1.value x.2) held)
  else
    let present := held.filter fun x => !omits p x.1 x.2
    return (← mapStart p info present.length) ++
      (← gather (fun x => do return key p info x.1 ++ (← part x.1.value x.2)) present)

/-- A fixed array: one byte string, or its elements behind a header. -/
def arrayNode (part : Shape → Value → Except Fault Bytes) (info : ArrayInfo) (element : Shape)
    (v : Value) : Except Fault Bytes := do
  let size ← info.resolvedSize
  if element.isSingleByte then
    return Wire.bin (← Encoder.byteArray size v)
  else match v with
    | .array items =>
      if items.length = size then
        return Wire.arrayHeader (UInt32.ofNat size) ++ (← gather (part element) items)
      else throw (.error (.mismatch (Decimal.ofNat size ++ " elements")
        (Decimal.ofNat items.length ++ " elements")))
    | _ => throw (wrongKind "array" v)

/-- The encoding of a value as a shape, given the encodings of its parts. -/
def node (t : Table) (p : Protocol) (part : Shape → Value → Except Fault Bytes) (s : Shape)
    (v : Value) : Except Fault Bytes :=
  match s with
  | .struct info fields =>
    match v with
    | .record values => structNode p part info fields values
    | _ => .error (wrongKind ("record " ++ info.name) v)
  | .map key value =>
    match v with
    | .map entries => do
      return Wire.mapHeader (UInt32.ofNat entries.length) ++
        (← gather (fun e => do return (← Encoder.mapKey key e.1) ++ (← part value e.2)) entries)
    | _ => .error (wrongKind "map" v)
  | .slice element =>
    match v with
    | .array items => do
      return Wire.arrayHeader (UInt32.ofNat items.length) ++ (← gather (part element) items)
    | _ => .error (wrongKind "array" v)
  | .array info element => arrayNode part info element v
  | .ptr pointee =>
    match v with
    | .nil => .ok Wire.nil
    | _ => part pointee v
  | .base info =>
    if info.kind = .identifier then
      match t.get? (info.typeName.getD "") with
      | some target => part target v
      | none => .error (.error (.unknownIdentity (info.typeName.getD "")))
    else Encoder.scalar info.kind v

theorem node_ptr {t : Table} {p : Protocol} {part : Shape → Value → Except Fault Bytes}
    {pointee : Shape} {v : Value} (h : v ≠ .nil) :
    node t p part (.ptr pointee) v = part pointee v := by
  cases v with
  | nil => exact absurd rfl h
  | _ => rfl

/-- The encoding of a value as a shape, to a given depth. -/
def bytes (t : Table) (p : Protocol) : Nat → Shape → Value → Except Fault Bytes
  | 0, _, _ => .error .tooDeep
  | depth + 1, s, v => node t p (bytes t p depth) s v

/-- The positions that the encoding of a value as a shape depends on. -/
inductive Child (t : Table) : Shape → Value → Shape → Value → Prop where
  /-- A live field of a struct, at the value that the record holds for it. -/
  | field {info : StructInfo} {fields : List Field} {values : List (String × Value)} {f : Field}
      {w : Value} (live : f ∈ liveFields fields)
      (held : Assoc.get? values f.info.name = some w) :
      Child t (.struct info fields) (.record values) f.value w
  /-- A value of a map. -/
  | entry {key : KeyKind} {value : Shape} {entries : List (Value × Value)} {e : Value × Value}
      (mem : e ∈ entries) : Child t (.map key value) (.map entries) value e.2
  /-- An element of a slice. -/
  | element {element : Shape} {items : List Value} {w : Value} (mem : w ∈ items) :
      Child t (.slice element) (.array items) element w
  /-- An element of a fixed array. -/
  | item {info : ArrayInfo} {element : Shape} {items : List Value} {w : Value}
      (mem : w ∈ items) : Child t (.array info element) (.array items) element w
  /-- What a pointer points to. -/
  | pointee {pointee : Shape} {v : Value} (present : v ≠ .nil) :
      Child t (.ptr pointee) v pointee v
  /-- The identity that an identifier names. -/
  | target {info : BaseInfo} {target : Shape} {v : Value} (named : info.kind = .identifier)
      (found : t.get? (info.typeName.getD "") = some target) :
      Child t (.base info) v target v

/-! ## More depth -/

/-- The first result is the second, unless the recursion was cut off. -/
def Below {α : Type} (x y : Except Fault α) : Prop :=
  x = .error .tooDeep ∨ x = y

namespace Below

variable {α β : Type}

theorem refl (x : Except Fault α) : Below x x := Or.inr rfl

theorem bind {x y : Except Fault α} {f g : α → Except Fault β} (h : Below x y)
    (hf : ∀ a, x = .ok a → Below (f a) (g a)) : Below (x >>= f) (y >>= g) := by
  rcases h with rfl | rfl
  · exact Or.inl rfl
  · cases x with
    | error e => exact Or.inr rfl
    | ok a => exact hf a rfl

theorem gather {f g : α → Except Fault Bytes} {xs : List α}
    (h : ∀ x ∈ xs, Below (f x) (g x)) : Below (gather f xs) (gather g xs) := by
  induction xs with
  | nil => exact refl _
  | cons x rest ih =>
    refine bind (h x List.mem_cons_self) fun b _ => ?_
    exact bind (ih fun y hy => h y (List.mem_cons_of_mem _ hy)) fun bs _ => refl _

theorem eq_of_ne {x y : Except Fault α} (h : Below x y) (hx : x ≠ .error .tooDeep) : y = x :=
  (h.resolve_left hx).symm

end Below

theorem mem_of_mapM_eq_ok {α β : Type} {f : α → Except Fault β} {xs : List α} {ys : List β}
    (h : xs.mapM f = .ok ys) {y : β} (hy : y ∈ ys) : ∃ x ∈ xs, f x = .ok y := by
  induction xs generalizing ys with
  | nil =>
    obtain rfl := Except.ok.inj h
    simp at hy
  | cons x rest ih =>
    rw [List.mapM_cons] at h
    obtain ⟨z, hz, h⟩ := bind_eq_ok h
    obtain ⟨zs, hzs, h⟩ := bind_eq_ok h
    obtain rfl := Except.ok.inj h
    rcases List.mem_cons.1 hy with rfl | hy
    · exact ⟨x, List.mem_cons_self, hz⟩
    · obtain ⟨x', hx', hfx'⟩ := ih hzs hy
      exact ⟨x', List.mem_cons_of_mem _ hx', hfx'⟩

theorem mem_of_fieldValue {struct : String} {values : List (String × Value)} {live : List Field}
    {held : List (Field × Value)} (h : live.mapM (fieldValue struct values) = .ok held)
    {x : Field × Value} (hx : x ∈ held) :
    x.1 ∈ live ∧ Assoc.get? values x.1.info.name = some x.2 := by
  obtain ⟨f, hf, hv⟩ := mem_of_mapM_eq_ok h hx
  unfold fieldValue at hv
  split at hv
  · obtain rfl := Except.ok.inj hv
    exact ⟨hf, by assumption⟩
  · cases hv

theorem structNode_below {t : Table} {p : Protocol}
    {part part' : Shape → Value → Except Fault Bytes} {info : StructInfo} {fields : List Field}
    {values : List (String × Value)}
    (h : ∀ s' v', Child t (.struct info fields) (.record values) s' v' →
      Below (part s' v') (part' s' v')) :
    Below (structNode p part info fields values) (structNode p part' info fields values) := by
  refine (Below.refl _).bind fun _ _ => (Below.refl _).bind fun held hheld => ?_
  have hchild : ∀ x ∈ held, Below (part x.1.value x.2) (part' x.1.value x.2) := by
    intro x hx
    obtain ⟨hlive, hget⟩ := mem_of_fieldValue hheld hx
    exact h _ _ (.field hlive hget)
  split
  · exact (Below.gather hchild).bind fun _ _ => Below.refl _
  · refine (Below.refl _).bind fun _ _ => (Below.gather fun x hx => ?_).bind fun _ _ => Below.refl _
    exact (hchild x (List.mem_filter.1 hx).1).bind fun _ _ => Below.refl _

/-- A result of one level is settled once its children are. -/
theorem node_below {t : Table} {p : Protocol} {part part' : Shape → Value → Except Fault Bytes}
    {s : Shape} {v : Value}
    (h : ∀ s' v', Child t s v s' v' → Below (part s' v') (part' s' v')) :
    Below (node t p part s v) (node t p part' s v) := by
  cases s with
  | struct info fields =>
    cases v with
    | record values => exact structNode_below h
    | _ => exact Below.refl _
  | map key value =>
    cases v with
    | map entries =>
      refine (Below.gather fun e he => ?_).bind fun _ _ => Below.refl _
      exact (Below.refl _).bind fun _ _ => (h _ _ (.entry he)).bind fun _ _ => Below.refl _
    | _ => exact Below.refl _
  | slice element =>
    cases v with
    | array items =>
      exact (Below.gather fun w hw => h _ _ (.element hw)).bind fun _ _ => Below.refl _
    | _ => exact Below.refl _
  | array info element =>
    refine (Below.refl _).bind fun size _ => ?_
    split
    · exact Below.refl _
    · cases v with
      | array items =>
        simp only
        split
        · exact (Below.gather fun w hw => h _ _ (.item hw)).bind fun _ _ => Below.refl _
        · exact Below.refl _
      | _ => exact Below.refl _
  | ptr pointee =>
    cases v with
    | nil => exact Below.refl _
    | _ => exact h _ _ (.pointee (by simp))
  | base info =>
    simp only [node]
    split
    · rename_i hk
      cases ht : t.get? (info.typeName.getD "") with
      | none => exact Below.refl _
      | some target => exact h _ _ (.target hk ht)
    · exact Below.refl _

theorem node_congr {t : Table} {p : Protocol} {part part' : Shape → Value → Except Fault Bytes}
    {s : Shape} {v : Value} (h : ∀ s' v', Child t s v s' v' → part s' v' = part' s' v') :
    node t p part s v = node t p part' s v := by
  have h₁ : Below (node t p part s v) (node t p part' s v) :=
    node_below fun s' v' hc => Or.inr (h s' v' hc)
  have h₂ : Below (node t p part' s v) (node t p part s v) :=
    node_below fun s' v' hc => Or.inr (h s' v' hc).symm
  rcases h₁ with h₁ | h₁
  · exact h₂.elim (fun h₂ => h₁.trans h₂.symm) Eq.symm
  · exact h₁

/-- A recursion over positions that is cut off at a depth: its results are settled once those of
the children are. -/
structure Unrolls {α : Type} (t : Table) (run : Nat → Shape → Value → Except Fault α) :
    Prop where
  cut : ∀ s v, run 0 s v = .error .tooDeep
  step : ∀ {d d' s v}, (∀ s' v', Child t s v s' v' → Below (run d s' v') (run d' s' v')) →
    Below (run (d + 1) s v) (run (d' + 1) s v)

namespace Unrolls

variable {α : Type} {t : Table} {run : Nat → Shape → Value → Except Fault α}

theorem below (h : Unrolls t run) (d k : Nat) (s : Shape) (v : Value) :
    Below (run d s v) (run (d + k) s v) := by
  induction d generalizing s v with
  | zero => exact Or.inl (h.cut s v)
  | succ d ih =>
    rw [Nat.succ_add]
    exact h.step fun s' v' _ => ih s' v'

/-- More depth does not change a result that was reached. -/
theorem mono (h : Unrolls t run) {d d' : Nat} {s : Shape} {v : Value} (hd : d ≤ d')
    (hrun : run d s v ≠ .error .tooDeep) : run d' s v = run d s v := by
  obtain ⟨k, rfl⟩ := Nat.exists_eq_add_of_le hd
  exact (h.below d k s v).eq_of_ne hrun

end Unrolls

theorem unrolls_bytes (t : Table) (p : Protocol) : Unrolls t (bytes t p) where
  cut _ _ := rfl
  step h := node_below h

theorem bytes_mono {t : Table} {p : Protocol} {d d' : Nat} {s : Shape} {v : Value}
    (hd : d ≤ d') (h : bytes t p d s v ≠ .error .tooDeep) :
    bytes t p d' s v = bytes t p d s v :=
  (unrolls_bytes t p).mono hd h

theorem bytes_eq_ok_of_le {t : Table} {p : Protocol} {d d' : Nat} {s : Shape} {v : Value}
    {b : Bytes} (hd : d ≤ d') (h : bytes t p d s v = .ok b) : bytes t p d' s v = .ok b := by
  rw [bytes_mono hd (by simp [h]), h]

end Packwright.Format
