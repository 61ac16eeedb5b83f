import Packwright.Proofs.Conformance
import Packwright.Proofs.Zids

/-
  Encodings are unambiguous. `Same t p s v v'`: as a shape, the values differ in nothing but what
  the format leaves out on purpose. A field that its struct leaves out is empty in both, an array of
  bytes may be given as a whole or as its elements, and at an interface only canonical forms count.

  `encode_append_inj`: from an encoding with anything behind it one can tell where it ends, and
  the value up to `Same`. Scalars, headers and keys are told apart by their tokens; a struct needs
  that no two of its keys are the same, so that an entry cannot be taken for that of a field
  further on. The induction is on the depth of the format, for two values at once.
-/

namespace Packwright

namespace Format

/-- Whether the slot of a live field is conditional. The place of the field does not matter. -/
def isConditional (p : Protocol) (info : StructInfo) (f : Field) : Bool :=
  (Layout.slotOf (Layout.modeOf info p) (Layout.usesIntKeys info (Layout.modeOf info p)) f
    0).conditional

/-- Whether a struct leaves out a live field that holds a value. -/
def leavesOut (p : Protocol) (info : StructInfo) (f : Field) (v : Value) : Bool :=
  isConditional p info f && (Emptiness.of f.value).holds v

end Format

/-- Values that a shape does not tell apart. -/
inductive Same (t : Table) (p : Protocol) : Shape → Value → Value → Prop where
  /-- A live field is left out of both structs, or it is in both and holds the same. -/
  | struct {info : StructInfo} {fields : List Field} {values values' : List (String × Value)}
      (held : ∀ f ∈ Format.liveFields fields, (Assoc.get? values f.info.name).isSome ∧
        (Assoc.get? values' f.info.name).isSome)
      (leftOut : ∀ f ∈ Format.liveFields fields, ∀ w w', Assoc.get? values f.info.name = some w →
        Assoc.get? values' f.info.name = some w' →
          Format.leavesOut p info f w = Format.leavesOut p info f w')
      (each : ∀ f ∈ Format.liveFields fields, ∀ w w', Assoc.get? values f.info.name = some w →
        Assoc.get? values' f.info.name = some w' → Format.leavesOut p info f w = false →
          Same t p f.value w w') :
      Same t p (.struct info fields) (.record values) (.record values')
  /-- The entries of a map, in order. -/
  | map {key : KeyKind} {value : Shape} {entries entries' : List (Value × Value)}
      (keys : entries.map Prod.fst = entries'.map Prod.fst)
      (each : ∀ x ∈ entries.zip entries', Same t p value x.1.2 x.2.2) :
      Same t p (.map key value) (.map entries) (.map entries')
  | slice {element : Shape} {items items' : List Value} (length : items.length = items'.length)
      (each : ∀ x ∈ items.zip items', Same t p element x.1 x.2) :
      Same t p (.slice element) (.array items) (.array items')
  | array {info : ArrayInfo} {element : Shape} {items items' : List Value}
      (wide : element.isSingleByte = false) (length : items.length = items'.length)
      (each : ∀ x ∈ items.zip items', Same t p element x.1 x.2) :
      Same t p (.array info element) (.array items) (.array items')
  /-- An array of bytes, given as a whole or as its elements. -/
  | byteArray {info : ArrayInfo} {element : Shape} {v v' : Value} {data : Bytes}
      (narrow : element.isSingleByte = true)
      (given : v = .bin data ∨ v = .array (data.map fun b => .uint b.toUInt64))
      (given' : v' = .bin data ∨ v' = .array (data.map fun b => .uint b.toUInt64)) :
      Same t p (.array info element) v v'
  | absent {pointee : Shape} : Same t p (.ptr pointee) .nil .nil
  | present {pointee : Shape} {v v' : Value} (present : v ≠ .nil) (present' : v' ≠ .nil)
      (there : Same t p pointee v v') : Same t p (.ptr pointee) v v'
  | identity {info : BaseInfo} {target : Shape} {v v' : Value} (named : info.kind = .identifier)
      (found : t.get? (info.typeName.getD "") = some target) (there : Same t p target v v') :
      Same t p (.base info) v v'
  | interface {info : BaseInfo} {v v' : Value} (any : info.kind = .interface)
      (canonical : v.canonical = v'.canonical) : Same t p (.base info) v v'
  | scalar {info : BaseInfo} {v : Value} (plain : info.kind ≠ .identifier)
      (one : info.kind ≠ .interface) : Same t p (.base info) v v

/-! ## Scalars -/

theorem Wire.timePayload_inj {secs secs' : Int64} {nanos nanos' : UInt32}
    (h : timePayload secs nanos = timePayload secs' nanos') : secs = secs' ∧ nanos = nanos' := by
  have hsecs (secs : Int64) (r : Bytes) :
      readSigned 8 (twosComplement 8 secs.toInt ++ r) = some (secs.toInt, r) := by
    have hlow := secs.le_toInt
    have hhigh := secs.toInt_lt
    exact readSigned_twosComplement (by omega) (by omega) r
  have hnanos (nanos : UInt32) : readNat 4 (bigEndian 4 nanos.toNat ++ []) =
      some (nanos.toNat, []) := readNat_bigEndian nanos.toNat_lt []
  have hread := hsecs secs (bigEndian 4 nanos.toNat)
  rw [show twosComplement 8 secs.toInt ++ bigEndian 4 nanos.toNat = _ from h, timePayload,
    hsecs] at hread
  obtain ⟨hs, hn⟩ := Prod.mk.inj (Option.some.inj hread)
  have hread' := hnanos nanos
  rw [← hn, hnanos] at hread'
  exact ⟨Int64.toInt_inj.1 hs.symm,
    UInt32.toNat_inj.1 (Prod.mk.inj (Option.some.inj hread')).1.symm⟩

namespace Encoder

/-- The bytes of a scalar are those of a value of any kind, unless a floating point number is
given at another width. -/
theorem scalar_eq_dynamic {k : Kind} {v : Value} {b : Bytes} (h : scalar k v = .ok b)
    (h32 : k = .float32 → ∃ bits, v = .float32 bits)
    (h64 : k = .float64 → ∃ bits, v = .float64 bits) : b = v.dynamic := by
  cases leaf_of_scalar h with
  | narrowed =>
    obtain ⟨bits, hbits⟩ := h32 rfl
    cases hbits
  | widened =>
    obtain ⟨bits, hbits⟩ := h64 rfl
    cases hbits
  | _ => rfl

theorem isSigned_of_scalar {k : Kind} {n : Int64} {b : Bytes} (h : scalar k (.int n) = .ok b)
    (hk : k ≠ .interface) : k.isSigned = true := by
  cases k <;> first | rfl | exact absurd rfl hk | cases h

theorem isUnsigned_of_scalar {k : Kind} {n : UInt64} {b : Bytes} (h : scalar k (.uint n) = .ok b)
    (hk : k ≠ .interface) : k.isUnsigned = true := by
  cases k <;> first | rfl | exact absurd rfl hk | cases h

theorem eq_time_of_scalar {k : Kind} {secs : Int64} {nanos : UInt32} {b : Bytes}
    (h : scalar k (.time secs nanos) = .ok b) (hk : k ≠ .interface) : k = .time := by
  cases k <;> first | rfl | exact absurd rfl hk | cases h

theorem eq_extension_of_scalar {k : Kind} {type : Int8} {data b : Bytes}
    (h : scalar k (.ext type data) = .ok b) (hk : k ≠ .interface) : k = .extension := by
  cases k <;> first | rfl | exact absurd rfl hk | cases h

theorem not_isSigned_and_isUnsigned (k : Kind) : ¬(k.isSigned = true ∧ k.isUnsigned = true) := by
  cases k <;> simp [Kind.isSigned, Kind.isUnsigned]

/-- A kind other than an interface fixes the form of a value, so its canonical form says all. -/
theorem eq_of_canonical {k : Kind} {v v' : Value} {b b' : Bytes} (h : scalar k v = .ok b)
    (h' : scalar k v' = .ok b') (hk : k ≠ .interface) (hc : v.canonical = v'.canonical) :
    v = v' := by
  cases v with
  | int n =>
    cases v' with
    | int n' => rw [Int64.toInt_inj.1 (Canonical.integer.inj hc)]
    | uint n' =>
      exact absurd ⟨isSigned_of_scalar h hk, isUnsigned_of_scalar h' hk⟩
        (not_isSigned_and_isUnsigned k)
    | _ => cases hc
  | uint n =>
    cases v' with
    | uint n' => rw [UInt64.toNat_inj.1 (Int.ofNat.inj (Canonical.integer.inj hc))]
    | int n' =>
      exact absurd ⟨isSigned_of_scalar h' hk, isUnsigned_of_scalar h hk⟩
        (not_isSigned_and_isUnsigned k)
    | _ => cases hc
  | time secs nanos =>
    cases v' with
    | time secs' nanos' =>
      obtain ⟨rfl, rfl⟩ := Wire.timePayload_inj (Canonical.ext.inj hc).2
      rfl
    | ext type data => cases (eq_time_of_scalar h hk).symm.trans (eq_extension_of_scalar h' hk)
    | _ => cases hc
  | ext type data =>
    cases v' with
    | ext type' data' => cases hc; rfl
    | time secs nanos => cases (eq_time_of_scalar h' hk).symm.trans (eq_extension_of_scalar h hk)
    | _ => cases hc
  | array _ | map _ | record _ | nil => cases k <;> first | exact absurd rfl hk | cases h
  | _ =>
    cases v' <;> cases hc
    rfl

/-- The bytes of a map key are those of a scalar. -/
theorem scalar_of_mapKey {key : KeyKind} {v : Value} {b : Bytes} (h : mapKey key v = .ok b) :
    scalar key.kind v = .ok b := by
  cases mapKey_eq_ok_iff.1 h with
  | string => rfl
  | int => rfl

/-- Two scalars of a kind with the same bytes, whatever stands behind them. -/
theorem scalar_append_inj {k : Kind} {v v' : Value} {b b' r r' : Bytes} (h : scalar k v = .ok b)
    (h' : scalar k v' = .ok b') (hv : v.Short) (hv' : v'.Short)
    (h32 : k = .float32 → (∃ bits, v = .float32 bits) ∧ ∃ bits, v' = .float32 bits)
    (h64 : k = .float64 → (∃ bits, v = .float64 bits) ∧ ∃ bits, v' = .float64 bits)
    (heq : b ++ r = b' ++ r') :
    v.canonical = v'.canonical ∧ (k ≠ .interface → v = v') ∧ r = r' := by
  obtain rfl := scalar_eq_dynamic h (fun hk => (h32 hk).1) fun hk => (h64 hk).1
  obtain rfl := scalar_eq_dynamic h' (fun hk => (h32 hk).2) fun hk => (h64 hk).2
  obtain ⟨hcanonical, hrest⟩ := Value.dynamic_append_inj hv hv' heq
  exact ⟨hcanonical, fun hk => eq_of_canonical h h' hk hcanonical, hrest⟩

end Encoder

/-! ## Keys -/

namespace Format

/-- In a struct with string keys no two live fields have the same name. -/
def NamesDistinct (p : Protocol) : Shape → Prop
  | .struct info fields => info.asTuple = false → hasIntKeys p info = false →
      ((liveFields fields).map fun f => f.info.name).Nodup
  | _ => True

/-- The number of live fields and the lengths of their names fit 32 bits. -/
def ShortStruct : Shape → Prop
  | .struct _ fields => (liveFields fields).length < UInt32.size ∧
      ∀ f ∈ liveFields fields, (utf8 f.info.name).length < UInt32.size
  | _ => True

/-- The key of a field in a struct that is not a tuple, as a value. -/
def keyValue (p : Protocol) (info : StructInfo) (f : Field) : Value :=
  if p == .fast || info.keyKind == .int64 then .int f.info.zid else .str f.info.name

theorem key_eq_dynamic (p : Protocol) (info : StructInfo) (f : Field) :
    key p info f = (keyValue p info f).dynamic := by
  unfold key keyValue
  split <;> rfl

theorem short_keyValue (p : Protocol) (info : StructInfo) {f : Field}
    (hf : (utf8 f.info.name).length < UInt32.size) : (keyValue p info f).Short := by
  unfold keyValue
  split
  · exact .int _
  · exact .str hf

theorem pairwise_keyValue {p : Protocol} {info : StructInfo} {fields : List Field}
    (ht : info.asTuple = false) (hkeys : checkKeys p info (liveFields fields) = .ok ())
    (hnames : NamesDistinct p (.struct info fields)) :
    (liveFields fields).Pairwise fun f g => keyValue p info f ≠ keyValue p info g := by
  unfold keyValue
  cases hint : (p == .fast || info.keyKind == .int64) with
  | true =>
    have hhas : hasIntKeys p info = true := by simp [hasIntKeys, ht, hint]
    rw [checkKeys, hhas, if_pos rfl] at hkeys
    cases hz : Layout.checkZids info.name [] (liveFields fields) with
    | error e => rw [hz] at hkeys; cases hkeys
    | ok u =>
      refine (Layout.soundZids_of_checkZids hz).2.imp fun hne heq => hne ?_
      exact Value.int.inj heq
  | false =>
    have hhas : hasIntKeys p info = false := by simp [hasIntKeys, hint]
    refine (List.pairwise_map.1 (hnames ht hhas)).imp fun hne heq => hne ?_
    exact Value.str.inj heq

/-- A key is not the start of another. -/
theorem key_append_ne {p : Protocol} {info : StructInfo} {f g : Field}
    (hf : (utf8 f.info.name).length < UInt32.size) (hg : (utf8 g.info.name).length < UInt32.size)
    (hne : keyValue p info f ≠ keyValue p info g) (r r' : Bytes) :
    key p info f ++ r ≠ key p info g ++ r' := by
  intro h
  rw [key_eq_dynamic, key_eq_dynamic] at h
  have hcanonical := (Value.dynamic_append_inj (short_keyValue p info hf)
    (short_keyValue p info hg) h).1
  unfold keyValue at hcanonical hne
  split at hcanonical
  · rename_i hint
    rw [if_pos hint, if_pos hint] at hne
    exact hne (congrArg _ (Int64.toInt_inj.1 (Canonical.integer.inj hcanonical)))
  · rename_i hint
    rw [if_neg hint, if_neg hint] at hne
    exact hne (congrArg _ (Canonical.str.inj hcanonical))

/-! ## Lists -/

/-- Lists of the same length, read side by side. -/
theorem gather_append_inj {α : Type} {f : α → Except Fault Bytes} {R : α → α → Prop}
    {xs xs' : List α} {b b' r r' : Bytes} (hlen : xs.length = xs'.length)
    (hb : gather f xs = .ok b) (hb' : gather f xs' = .ok b')
    (heach : ∀ x ∈ xs, ∀ x' ∈ xs', ∀ a a' r r', f x = .ok a → f x' = .ok a' →
      a ++ r = a' ++ r' → R x x' ∧ r = r')
    (h : b ++ r = b' ++ r') : (∀ y ∈ xs.zip xs', R y.1 y.2) ∧ r = r' := by
  induction xs generalizing xs' b b' with
  | nil =>
    obtain rfl := List.length_eq_zero_iff.1 hlen.symm
    obtain rfl := Except.ok.inj hb
    obtain rfl := Except.ok.inj hb'
    exact ⟨by simp, h⟩
  | cons x rest ih =>
    cases xs' with
    | nil => cases hlen
    | cons x' rest' =>
      obtain ⟨a, as, ha, has, rfl⟩ := gather_cons_eq_ok hb
      obtain ⟨a', as', ha', has', rfl⟩ := gather_cons_eq_ok hb'
      rw [List.append_assoc, List.append_assoc] at h
      obtain ⟨hx, h⟩ := heach x List.mem_cons_self x' List.mem_cons_self a a' _ _ ha ha' h
      obtain ⟨hrest, hr⟩ := ih (Nat.succ.inj hlen) has has' (fun y hy y' hy' =>
        heach y (List.mem_cons_of_mem _ hy) y' (List.mem_cons_of_mem _ hy')) h
      rw [List.zip_cons_cons, List.forall_mem_cons]
      exact ⟨⟨hx, hrest⟩, hr⟩

/-- A header says how many things follow. -/
theorem header_append_inj {header : UInt32 → Bytes} {token : Nat → Wire.Token} {n n' : Nat}
    {r r' : Bytes}
    (hread : ∀ n r, Wire.readToken (header n ++ r) = some (token n.toNat, r))
    (hinj : ∀ n n', token n = token n' → n = n') (hn : n < UInt32.size) (hn' : n' < UInt32.size)
    (h : header (UInt32.ofNat n) ++ r = header (UInt32.ofNat n') ++ r') : n = n' ∧ r = r' := by
  have hfirst := hread (UInt32.ofNat n) r
  rw [h, hread, Wire.toNat_ofNat_length hn, Wire.toNat_ofNat_length hn'] at hfirst
  obtain ⟨htoken, hr⟩ := Prod.mk.inj (Option.some.inj hfirst)
  exact ⟨(hinj _ _ htoken).symm, hr.symm⟩

theorem mapHeader_append_inj {n n' : Nat} {r r' : Bytes} (hn : n < UInt32.size)
    (hn' : n' < UInt32.size)
    (h : Wire.mapHeader (UInt32.ofNat n) ++ r = Wire.mapHeader (UInt32.ofNat n') ++ r') :
    n = n' ∧ r = r' :=
  header_append_inj Wire.readToken_mapHeader (fun _ _ => Wire.Token.map.inj) hn hn' h

theorem arrayHeader_append_inj {n n' : Nat} {r r' : Bytes} (hn : n < UInt32.size)
    (hn' : n' < UInt32.size)
    (h : Wire.arrayHeader (UInt32.ofNat n) ++ r = Wire.arrayHeader (UInt32.ofNat n') ++ r') :
    n = n' ∧ r = r' :=
  header_append_inj Wire.readToken_arrayHeader (fun _ _ => Wire.Token.array.inj) hn hn' h

/-! ## Structs -/

section

variable {key : Field → Bytes} {part : Shape → Value → Except Fault Bytes}
  {out out' : Field → Bool} {w w' : Field → Value}

/-- The entry of a field, unless it is left out. -/
def entryBytes (key : Field → Bytes) (part : Shape → Value → Except Fault Bytes)
    (out : Field → Bool) (w : Field → Value) (f : Field) : Except Fault Bytes :=
  if out f then .ok [] else do return key f ++ (← part f.value (w f))

theorem entryBytes_eq_ok {f : Field} {b : Bytes} (h : entryBytes key part out w f = .ok b)
    (hf : out f = false) : ∃ a, part f.value (w f) = .ok a ∧ b = key f ++ a := by
  rw [entryBytes, if_neg (by simp [hf])] at h
  obtain ⟨a, ha, h⟩ := bind_eq_ok h
  exact ⟨a, ha, (Except.ok.inj h).symm⟩

theorem entryBytes_eq_nil {f : Field} {b : Bytes} (h : entryBytes key part out w f = .ok b)
    (hf : out f = true) : b = [] := by
  rw [entryBytes, if_pos hf] at h
  exact (Except.ok.inj h).symm

/-- Where fields are left to come, the next bytes are the key of one of them. -/
theorem exists_key_of_countP {live : List Field} {b : Bytes}
    (hb : gather (entryBytes key part out w) live = .ok b)
    (hcount : 0 < live.countP fun f => !out f) : ∃ f ∈ live, ∃ rest, b = key f ++ rest := by
  induction live generalizing b with
  | nil => simp at hcount
  | cons f live ih =>
    obtain ⟨a, as, ha, has, rfl⟩ := gather_cons_eq_ok hb
    cases hf : out f with
    | false =>
      obtain ⟨a', -, rfl⟩ := entryBytes_eq_ok ha hf
      exact ⟨f, List.mem_cons_self, a' ++ as, by rw [List.append_assoc]⟩
    | true =>
      rw [List.countP_cons_of_neg (by simp [hf])] at hcount
      obtain ⟨g, hg, rest, rfl⟩ := ih has hcount
      rw [entryBytes_eq_nil ha hf]
      exact ⟨g, List.mem_cons_of_mem _ hg, rest, rfl⟩

/-- A field is not left out of one struct alone: what stands there in the other would be the key of
a field further on. -/
theorem not_left_out_alone {f : Field} {live : List Field} {b b' r r' : Bytes}
    (hapart : ∀ g ∈ live, ∀ r r', key f ++ r ≠ key g ++ r') (hf : out f = false)
    (hf' : out' f = true) (hb : gather (entryBytes key part out w) (f :: live) = .ok b)
    (hb' : gather (entryBytes key part out' w') (f :: live) = .ok b')
    (hcount : (f :: live).countP (fun f => !out f) = (f :: live).countP fun f => !out' f) :
    b ++ r ≠ b' ++ r' := by
  obtain ⟨a, as, ha, -, rfl⟩ := gather_cons_eq_ok hb
  obtain ⟨a', as', ha', has', rfl⟩ := gather_cons_eq_ok hb'
  obtain ⟨c, -, rfl⟩ := entryBytes_eq_ok ha hf
  obtain rfl := entryBytes_eq_nil ha' hf'
  rw [List.countP_cons_of_pos (by simp [hf]), List.countP_cons_of_neg (by simp [hf'])] at hcount
  obtain ⟨g, hg, rest, rfl⟩ := exists_key_of_countP has' (by omega)
  rw [List.append_assoc, List.append_assoc, List.nil_append, List.append_assoc]
  exact hapart g hg _ _

/-- The entries of two structs, read side by side. -/
theorem entries_append_inj {R : Field → Prop} {live : List Field} {b b' r r' : Bytes}
    (hapart : live.Pairwise fun f g => out f ≠ out' f → ∀ r r', key f ++ r ≠ key g ++ r')
    (hcount : live.countP (fun f => !out f) = live.countP fun f => !out' f)
    (hb : gather (entryBytes key part out w) live = .ok b)
    (hb' : gather (entryBytes key part out' w') live = .ok b')
    (heach : ∀ f ∈ live, ∀ a a' r r', part f.value (w f) = .ok a → part f.value (w' f) = .ok a' →
      a ++ r = a' ++ r' → R f ∧ r = r')
    (h : b ++ r = b' ++ r') :
    (∀ f ∈ live, out f = out' f ∧ (out f = false → R f)) ∧ r = r' := by
  induction live generalizing b b' with
  | nil =>
    obtain rfl := Except.ok.inj hb
    obtain rfl := Except.ok.inj hb'
    exact ⟨by simp, h⟩
  | cons f live ih =>
    rw [List.pairwise_cons] at hapart
    rw [List.forall_mem_cons]
    -- both structs have as many entries, so the one that leaves `f` out has another in its place
    have hsame : out f = out' f := by
      cases hf : out f <;> cases hf' : out' f
      · rfl
      · have hne := hapart.1
        rw [hf, hf'] at hne
        exact absurd h (not_left_out_alone (fun g hg => hne g hg (by simp)) hf hf' hb hb' hcount)
      · have hne := hapart.1
        rw [hf, hf'] at hne
        exact absurd h.symm
          (not_left_out_alone (fun g hg => hne g hg (by simp)) hf' hf hb' hb hcount.symm)
      · rfl
    obtain ⟨a, as, ha, has, rfl⟩ := gather_cons_eq_ok hb
    obtain ⟨a', as', ha', has', rfl⟩ := gather_cons_eq_ok hb'
    rw [List.append_assoc, List.append_assoc] at h
    have hrest (hcount : live.countP (fun f => !out f) = live.countP fun f => !out' f)
        (h : as ++ r = as' ++ r') := ih hapart.2 hcount has has'
      (fun g hg => heach g (List.mem_cons_of_mem _ hg)) h
    cases hf : out f with
    | true =>
      have hf' : out' f = true := hsame ▸ hf
      obtain rfl := entryBytes_eq_nil ha hf
      obtain rfl := entryBytes_eq_nil ha' hf'
      rw [List.countP_cons_of_neg (by simp [hf]), List.countP_cons_of_neg (by simp [hf'])] at hcount
      obtain ⟨hlive, hr⟩ := hrest hcount h
      exact ⟨⟨⟨hf'.symm, fun hno => by cases hno⟩, hlive⟩, hr⟩
    | false =>
      have hf' : out' f = false := hsame ▸ hf
      obtain ⟨c, hc, rfl⟩ := entryBytes_eq_ok ha hf
      obtain ⟨c', hc', rfl⟩ := entryBytes_eq_ok ha' hf'
      rw [List.countP_cons_of_pos (by simp [hf]), List.countP_cons_of_pos (by simp [hf'])] at hcount
      rw [List.append_assoc, List.append_assoc] at h
      obtain ⟨hR, h⟩ := heach f List.mem_cons_self c c' _ _ hc hc' (List.append_cancel_left h)
      obtain ⟨hlive, hr⟩ := hrest (Nat.succ.inj hcount) h
      exact ⟨⟨⟨hf'.symm, fun _ => hR⟩, hlive⟩, hr⟩

end

section

variable {p : Protocol} {info : StructInfo} {fields : List Field}
  {part : Shape → Value → Except Fault Bytes} {values values' : List (String × Value)}

/-- What stands before the value of a live field, which is nothing in a tuple. -/
def slotKey (p : Protocol) (info : StructInfo) (f : Field) : Bytes :=
  (Layout.slotOf (Layout.modeOf info p) (Layout.usesIntKeys info (Layout.modeOf info p)) f 0).key

theorem leavesOut_tuple (ht : info.asTuple = true) (f : Field) (v : Value) :
    leavesOut p info f v = false := by
  rw [leavesOut, isConditional, slotOf_tuple ht]
  rfl

theorem leavesOut_map (hs : (Shape.struct info fields).IsFinalNode) (ht : info.asTuple = false)
    {f : Field} (hf : f ∈ liveFields fields) (v : Value) :
    leavesOut p info f v = omits p f v :=
  slotOf_omitted hs ht hf 0 v

theorem fieldBytes_eq_entryBytes (hs : (Shape.struct info fields).IsFinalNode) {f : Field}
    (hf : f ∈ liveFields fields) (w : Field → Value) :
    Encoder.fieldBytes p part info (f, w f) =
      entryBytes (slotKey p info) part (fun f => leavesOut p info f (w f)) w f := by
  cases ht : info.asTuple with
  | true =>
    simp only [entryBytes, Encoder.fieldBytes_tuple ht, leavesOut_tuple ht, Bool.false_eq_true,
      if_false, slotKey, slotOf_tuple ht, List.nil_append]
    exact (bind_pure _).symm
  | false =>
    simp only [entryBytes, Encoder.fieldBytes_map ht, leavesOut_map hs ht hf, slotKey,
      slotOf_key ht]
    cases omits p f (w f) <;> rfl

theorem isSome_of_mapM_fieldValue {struct : String} {live : List Field}
    {held : List (Field × Value)} (h : live.mapM (fieldValue struct values) = .ok held) :
    ∀ f ∈ live, (Assoc.get? values f.info.name).isSome := by
  induction live generalizing held with
  | nil => simp
  | cons f rest ih =>
    rw [List.mapM_cons] at h
    obtain ⟨x, hx, h⟩ := bind_eq_ok h
    obtain ⟨xs, hxs, -⟩ := bind_eq_ok h
    rw [List.forall_mem_cons]
    refine ⟨?_, ih hxs⟩
    unfold fieldValue at hx
    split at hx
    · rename_i hget
      rw [hget]
      rfl
    · cases hx

/-- A struct whose keys can be told apart and that holds a value for each live field is its start
with the entries of these fields behind it. -/
theorem structNode_eq_entries (hs : (Shape.struct info fields).IsFinalNode)
    (hkeys : checkKeys p info (liveFields fields) = .ok ())
    (hheld : ∀ f ∈ liveFields fields, (Assoc.get? values f.info.name).isSome) :
    structNode p part info fields values = (do
      return (← Encoder.structStart p info fields values) ++
        (← gather (entryBytes (slotKey p info) part
          (fun f => leavesOut p info f (Encoder.heldFor values f)) (Encoder.heldFor values))
          (liveFields fields))) := by
  rw [Encoder.structNode_eq hkeys (mapM_fieldValue hheld), Encoder.heldFields, Encoder.gather_map,
    gather_congr fun f hf => fieldBytes_eq_entryBytes hs hf (Encoder.heldFor values)]

/-- A struct that is encoded has keys that can be told apart and a value for each live field. -/
theorem structNode_eq_ok {b : Bytes} (hs : (Shape.struct info fields).IsFinalNode)
    (h : structNode p part info fields values = .ok b) :
    checkKeys p info (liveFields fields) = .ok () ∧
      (∀ f ∈ liveFields fields, (Assoc.get? values f.info.name).isSome) ∧
      ∃ start rest, Encoder.structStart p info fields values = .ok start ∧
        gather (entryBytes (slotKey p info) part
          (fun f => leavesOut p info f (Encoder.heldFor values f)) (Encoder.heldFor values))
          (liveFields fields) = .ok rest ∧ b = start ++ rest := by
  obtain ⟨u, hkeys, hrest⟩ := bind_eq_ok h
  obtain ⟨held, hmap, -⟩ := bind_eq_ok hrest
  have hheld := isSome_of_mapM_fieldValue hmap
  rw [structNode_eq_entries hs hkeys hheld] at h
  obtain ⟨start, hstart, h⟩ := bind_eq_ok h
  obtain ⟨rest, hentries, h⟩ := bind_eq_ok h
  exact ⟨hkeys, hheld, start, rest, hstart, hentries, (Except.ok.inj h).symm⟩

theorem mapStart_append_inj {n n' : Nat} {b b' r r' : Bytes} (hn : n < UInt32.size)
    (hn' : n' < UInt32.size) (hb : mapStart p info n = .ok b) (hb' : mapStart p info n' = .ok b')
    (h : b ++ r = b' ++ r') : n = n' ∧ r = r' := by
  cases p with
  | msgp2 =>
    obtain rfl := Except.ok.inj hb
    obtain rfl := Except.ok.inj hb'
    exact mapHeader_append_inj hn hn' h
  | fast =>
    simp only [mapStart, Nat.mod_eq_of_lt hn, Nat.mod_eq_of_lt hn'] at hb hb'
    split at hb
    · split at hb'
      · obtain rfl := Except.ok.inj hb
        obtain rfl := Except.ok.inj hb'
        generalize Wire.int (-1) ++ Wire.bin (utf8 info.name) = entry at h
        rw [List.append_assoc, List.append_assoc] at h
        obtain ⟨hcount, h⟩ := mapHeader_append_inj (by omega) (by omega) h
        exact ⟨by omega, List.append_cancel_left h⟩
      · cases hb'
    · cases hb

/-- The number of entries that the start of a struct announces is that of the fields present. -/
theorem countP_present (hs : (Shape.struct info fields).IsFinalNode) (ht : info.asTuple = false)
    (values : List (String × Value)) :
    ((Encoder.heldFields fields values).filter fun x => !omits p x.1 x.2).length =
      (liveFields fields).countP fun f => !leavesOut p info f (Encoder.heldFor values f) := by
  rw [← List.countP_eq_length_filter, Encoder.heldFields, List.countP_map]
  refine List.countP_congr fun f hf => ?_
  rw [leavesOut_map hs ht hf]
  rfl

/-- The start of a struct says how many entries it has. -/
theorem structStart_append_inj {b b' r r' : Bytes} (hs : (Shape.struct info fields).IsFinalNode)
    (hlen : (liveFields fields).length < UInt32.size)
    (hb : Encoder.structStart p info fields values = .ok b)
    (hb' : Encoder.structStart p info fields values' = .ok b') (h : b ++ r = b' ++ r') :
    (liveFields fields).countP (fun f => !leavesOut p info f (Encoder.heldFor values f)) =
      (liveFields fields).countP (fun f => !leavesOut p info f (Encoder.heldFor values' f)) ∧
        r = r' := by
  unfold Encoder.structStart at hb hb'
  cases ht : info.asTuple with
  | true =>
    rw [ht, if_pos rfl] at hb hb'
    obtain rfl := Except.ok.inj hb
    obtain rfl := Except.ok.inj hb'
    simp only [leavesOut_tuple ht]
    exact ⟨trivial, List.append_cancel_left h⟩
  | false =>
    rw [ht, if_neg (by simp)] at hb hb'
    rw [countP_present hs ht] at hb hb'
    have hle := fun q : Field → Bool => Nat.lt_of_le_of_lt (List.countP_le_length (p := q)) hlen
    exact mapStart_append_inj (hle _) (hle _) hb hb' h

end

/-! ## Nil -/

/-- Floating point numbers are given at the width that the shape declares. -/
def FloatsDeclared (t : Table) (s : Shape) (v : Value) : Prop :=
  ∀ info w, Reach t s v (.base info) w →
    (info.kind = .float32 → ∃ bits, w = .float32 bits) ∧
      (info.kind = .float64 → ∃ bits, w = .float64 bits)

/-- A value that can be read back: its lengths fit, and its floating point numbers have the
declared width. -/
structure Readable (t : Table) (s : Shape) (v : Value) : Prop where
  short : v.Short
  floats : FloatsDeclared t s v

theorem short_child {t : Table} {s s' : Shape} {v v' : Value} (h : v.Short)
    (hc : Child t s v s' v') : v'.Short := by
  cases hc with
  | field hlive hheld =>
    cases h with
    | record _ _ each => exact each _ (Assoc.mem_of_get? hheld)
  | entry hmem =>
    cases h with
    | map _ _ each => exact each _ hmem
  | element hmem =>
    cases h with
    | array _ each => exact each _ hmem
  | item hmem =>
    cases h with
    | array _ each => exact each _ hmem
  | pointee _ => exact h
  | target _ _ => exact h

theorem Readable.child {t : Table} {s s' : Shape} {v v' : Value} (h : Readable t s v)
    (hc : Child t s v s' v') : Readable t s' v' :=
  ⟨short_child h.short hc, fun info w hr => h.floats info w (.step hc hr)⟩

theorem length_of_given {v : Value} {data : Bytes} (h : v.Short)
    (hgiven : v = .bin data ∨ v = .array (data.map fun b => .uint b.toUInt64)) :
    data.length < UInt32.size := by
  rcases hgiven with rfl | rfl
  · cases h with
    | bin hlen => exact hlen
  · cases h with
    | array hlen _ => rwa [List.length_map] at hlen

/-- A fixed array is one byte string, or a header with the elements. -/
theorem arrayNode_eq_ok {part : Shape → Value → Except Fault Bytes} {info : ArrayInfo}
    {element : Shape} {v : Value} {b : Bytes} (h : arrayNode part info element v = .ok b) :
    (element.isSingleByte = true ∧ ∃ data, b = Wire.bin data ∧
      (v = .bin data ∨ v = .array (data.map fun b => .uint b.toUInt64))) ∨
    (element.isSingleByte = false ∧ ∃ items rest, v = .array items ∧
      gather (part element) items = .ok rest ∧
        b = Wire.arrayHeader (UInt32.ofNat items.length) ++ rest) := by
  obtain ⟨size, -, h⟩ := bind_eq_ok h
  split at h
  · rename_i hnarrow
    obtain ⟨data, hdata, h⟩ := bind_eq_ok h
    exact Or.inl ⟨hnarrow, data, (Except.ok.inj h).symm, (Encoder.byteArray_eq_ok_iff.1 hdata).1⟩
  · rename_i hwide
    cases v with
    | array items =>
      simp only at h
      split at h
      · rename_i hsize
        subst hsize
        obtain ⟨rest, hrest, h⟩ := bind_eq_ok h
        exact Or.inr ⟨by simpa using hwide, items, rest, rfl, hrest, (Except.ok.inj h).symm⟩
      · cases h
    | _ => cases h

theorem ne_nil_append {b r r' x : Bytes} {token : Wire.Token}
    (hread : Wire.readToken (b ++ r) = some (token, x)) (htoken : token ≠ .nil) :
    b ++ r ≠ Wire.nil ++ r' := by
  intro h
  rw [h, Wire.readToken_nil] at hread
  exact htoken (Prod.mk.inj (Option.some.inj hread)).1.symm

theorem structStart_ne_nil {p : Protocol} {info : StructInfo} {fields : List Field}
    {values : List (String × Value)} {b : Bytes}
    (h : Encoder.structStart p info fields values = .ok b) (r r' : Bytes) :
    b ++ r ≠ Wire.nil ++ r' := by
  unfold Encoder.structStart at h
  split at h
  · obtain rfl := Except.ok.inj h
    exact ne_nil_append (Wire.readToken_arrayHeader _ _) (by simp)
  · unfold mapStart at h
    split at h
    · split at h
      · obtain rfl := Except.ok.inj h
        rw [List.append_assoc]
        exact ne_nil_append (Wire.readToken_mapHeader _ _) (by simp)
      · cases h
    · obtain rfl := Except.ok.inj h
      exact ne_nil_append (Wire.readToken_mapHeader _ _) (by simp)

/-- Only nil is encoded as nil, so a pointer shows whether something is there. -/
theorem bytes_ne_nil_append {t : Table} {p : Protocol} {depth : Nat} {s : Shape} {v : Value}
    {b : Bytes} (hT : t.IsFinal) (hs : s.IsFinal) (hv : Readable t s v) (hne : v ≠ .nil)
    (hb : bytes t p depth s v = .ok b) (r r' : Bytes) : b ++ r ≠ Wire.nil ++ r' := by
  -- pointers and identifiers lead to another shape of the same value
  induction depth generalizing s with
  | zero => cases hb
  | succ depth ih =>
    rw [bytes] at hb
    cases s with
    | struct info fields =>
      cases v with
      | record values =>
        obtain ⟨-, -, start, rest, hstart, -, rfl⟩ := structNode_eq_ok hs.here hb
        rw [List.append_assoc]
        exact structStart_ne_nil hstart _ _
      | _ => cases hb
    | map key value =>
      cases v with
      | map entries =>
        obtain ⟨rest, -, hb⟩ := bind_eq_ok hb
        obtain rfl := Except.ok.inj hb
        rw [List.append_assoc]
        exact ne_nil_append (Wire.readToken_mapHeader _ _) (by simp)
      | _ => cases hb
    | slice element =>
      cases v with
      | array items =>
        obtain ⟨rest, -, hb⟩ := bind_eq_ok hb
        obtain rfl := Except.ok.inj hb
        rw [List.append_assoc]
        exact ne_nil_append (Wire.readToken_arrayHeader _ _) (by simp)
      | _ => cases hb
    | array info element =>
      obtain ⟨-, data, rfl, hgiven⟩ | ⟨-, items, rest, -, -, rfl⟩ := arrayNode_eq_ok hb
      · rw [Wire.bin, List.append_assoc]
        exact ne_nil_append (Wire.readToken_binHeader (length_of_given hv.short hgiven) _) (by simp)
      · rw [List.append_assoc]
        exact ne_nil_append (Wire.readToken_arrayHeader _ _) (by simp)
    | ptr pointee =>
      rw [node_ptr hne] at hb
      exact ih hs.2 (hv.child (.pointee hne)) hb
    | base info =>
      simp only [node] at hb
      split at hb
      · rename_i hnamed
        split at hb
        · rename_i target hfound
          exact ih (hT _ _ hfound).1 (hv.child (.target hnamed hfound)) hb
        · cases hb
      · obtain ⟨h32, h64⟩ := hv.floats info v .here
        obtain rfl := Encoder.scalar_eq_dynamic hb h32 h64
        intro h
        have hcanonical := (Value.dynamic_append_inj hv.short .nil h).1
        cases v <;> first | exact absurd rfl hne | cases hcanonical

/-! ## Whole encodings -/

/-- The bytes that an encoder gives for two values, whatever stands behind them, show where they
end and that the values are the same. -/
def Tells (t : Table) (p : Protocol) (part : Shape → Value → Except Fault Bytes) (s : Shape)
    (v v' : Value) : Prop :=
  ∀ a a' r r', part s v = .ok a → part s v' = .ok a' → a ++ r = a' ++ r' →
    Same t p s v v' ∧ r = r'

section

variable {t : Table} {p : Protocol} {part : Shape → Value → Except Fault Bytes}
  {b b' r r' : Bytes}

/-- Two structs with the same bytes, whatever stands behind them. -/
theorem structNode_append_inj {info : StructInfo} {fields : List Field}
    {values values' : List (String × Value)}
    (hs : (Shape.struct info fields).IsFinalNode) (hnames : NamesDistinct p (.struct info fields))
    (hshort : ShortStruct (.struct info fields))
    (hb : structNode p part info fields values = .ok b)
    (hb' : structNode p part info fields values' = .ok b')
    (heach : ∀ f ∈ liveFields fields, ∀ w w', Assoc.get? values f.info.name = some w →
      Assoc.get? values' f.info.name = some w' → Tells t p part f.value w w')
    (h : b ++ r = b' ++ r') :
    Same t p (.struct info fields) (.record values) (.record values') ∧ r = r' := by
  obtain ⟨hkeys, hheld, start, rest, hstart, hrest, rfl⟩ := structNode_eq_ok hs hb
  obtain ⟨-, hheld', start', rest', hstart', hrest', rfl⟩ := structNode_eq_ok hs hb'
  rw [List.append_assoc, List.append_assoc] at h
  obtain ⟨hcount, h⟩ := structStart_append_inj hs hshort.1 hstart hstart' h
  have hget := fun f hf => Encoder.get?_heldFor (hheld f hf)
  have hget' := fun f hf => Encoder.get?_heldFor (hheld' f hf)
  have hapart : (liveFields fields).Pairwise fun f g =>
      leavesOut p info f (Encoder.heldFor values f) ≠
        leavesOut p info f (Encoder.heldFor values' f) →
      ∀ r r', slotKey p info f ++ r ≠ slotKey p info g ++ r' := by
    cases ht : info.asTuple with
    | true =>
      refine List.pairwise_of_forall fun f g hne => absurd ?_ hne
      rw [leavesOut_tuple ht, leavesOut_tuple ht]
    | false =>
      refine (pairwise_keyValue ht hkeys hnames).imp_of_mem fun hf hg hne _ r r' => ?_
      rw [slotKey, slotOf_key ht, slotKey, slotOf_key ht]
      exact key_append_ne (hshort.2 _ hf) (hshort.2 _ hg) hne r r'
  obtain ⟨hfields, hr⟩ := entries_append_inj
    (R := fun f => Same t p f.value (Encoder.heldFor values f) (Encoder.heldFor values' f))
    hapart hcount hrest hrest' (fun f hf => heach f hf _ _ (hget f hf) (hget' f hf)) h
  refine ⟨.struct (fun f hf => ⟨hheld f hf, hheld' f hf⟩) (fun f hf w w' hw hw' => ?_)
    fun f hf w w' hw hw' hin => ?_, hr⟩
  · obtain rfl := Option.some.inj ((hget f hf).symm.trans hw)
    obtain rfl := Option.some.inj ((hget' f hf).symm.trans hw')
    exact (hfields f hf).1
  · obtain rfl := Option.some.inj ((hget f hf).symm.trans hw)
    obtain rfl := Option.some.inj ((hget' f hf).symm.trans hw')
    exact (hfields f hf).2 hin

theorem map_fst_eq_of_zip {α β : Type} {xs xs' : List (α × β)} (hlen : xs.length = xs'.length)
    (h : ∀ y ∈ xs.zip xs', y.1.1 = y.2.1) : xs.map Prod.fst = xs'.map Prod.fst := by
  induction xs generalizing xs' with
  | nil =>
    obtain rfl := List.length_eq_zero_iff.1 hlen.symm
    rfl
  | cons x rest ih =>
    cases xs' with
    | nil => cases hlen
    | cons x' rest' =>
      rw [List.zip_cons_cons, List.forall_mem_cons] at h
      rw [List.map_cons, List.map_cons, h.1, ih (Nat.succ.inj hlen) h.2]

/-- Two maps with the same bytes, whatever stands behind them. -/
theorem mapEntries_append_inj {key : KeyKind} {value : Shape}
    {entries entries' : List (Value × Value)}
    (hshort : (Value.map entries).Short) (hshort' : (Value.map entries').Short)
    (hb : gather (fun e => do return (← Encoder.mapKey key e.1) ++ (← part value e.2)) entries =
      .ok b)
    (hb' : gather (fun e => do return (← Encoder.mapKey key e.1) ++ (← part value e.2)) entries' =
      .ok b')
    (heach : ∀ e ∈ entries, ∀ e' ∈ entries', Tells t p part value e.2 e'.2)
    (h : Wire.mapHeader (UInt32.ofNat entries.length) ++ b ++ r =
      Wire.mapHeader (UInt32.ofNat entries'.length) ++ b' ++ r') :
    Same t p (.map key value) (.map entries) (.map entries') ∧ r = r' := by
  cases hshort with
  | map hlen hkeys _ =>
    cases hshort' with
    | map hlen' hkeys' _ =>
      rw [List.append_assoc, List.append_assoc] at h
      obtain ⟨hcount, h⟩ := mapHeader_append_inj hlen hlen' h
      obtain ⟨hentries, hr⟩ := gather_append_inj
        (R := fun e e' => e.1 = e'.1 ∧ Same t p value e.2 e'.2) hcount hb hb' (by
          intro e he e' he' a a' r r' ha ha' h
          obtain ⟨k, hk, ha⟩ := bind_eq_ok ha
          obtain ⟨x, hx, ha⟩ := bind_eq_ok ha
          obtain rfl := Except.ok.inj ha
          obtain ⟨k', hk', ha'⟩ := bind_eq_ok ha'
          obtain ⟨x', hx', ha'⟩ := bind_eq_ok ha'
          obtain rfl := Except.ok.inj ha'
          rw [List.append_assoc, List.append_assoc] at h
          obtain ⟨-, heq, h⟩ := Encoder.scalar_append_inj (Encoder.scalar_of_mapKey hk)
            (Encoder.scalar_of_mapKey hk') (hkeys e he) (hkeys' e' he')
            (fun hf => by cases key <;> cases hf) (fun hf => by cases key <;> cases hf) h
          obtain ⟨hsame, hr⟩ := heach e he e' he' x x' _ _ hx hx' h
          exact ⟨⟨heq (fun hf => by cases key <;> cases hf), hsame⟩, hr⟩) h
      exact ⟨.map (map_fst_eq_of_zip hcount fun y hy => (hentries y hy).1)
        fun y hy => (hentries y hy).2, hr⟩

/-- Two lists with the same bytes, whatever stands behind them. -/
theorem items_append_inj {element : Shape} {items items' : List Value}
    (hshort : (Value.array items).Short) (hshort' : (Value.array items').Short)
    (hb : gather (part element) items = .ok b) (hb' : gather (part element) items' = .ok b')
    (heach : ∀ w ∈ items, ∀ w' ∈ items', Tells t p part element w w')
    (h : Wire.arrayHeader (UInt32.ofNat items.length) ++ b ++ r =
      Wire.arrayHeader (UInt32.ofNat items'.length) ++ b' ++ r') :
    items.length = items'.length ∧ (∀ x ∈ items.zip items', Same t p element x.1 x.2) ∧
      r = r' := by
  cases hshort with
  | array hlen _ =>
    cases hshort' with
    | array hlen' _ =>
      rw [List.append_assoc, List.append_assoc] at h
      obtain ⟨hcount, h⟩ := arrayHeader_append_inj hlen hlen' h
      exact ⟨hcount, gather_append_inj hcount hb hb' heach h⟩

/-- Two fixed arrays with the same bytes, whatever stands behind them. -/
theorem arrayNode_append_inj {info : ArrayInfo} {element : Shape} {v v' : Value}
    (hshort : v.Short) (hshort' : v'.Short) (hb : arrayNode part info element v = .ok b)
    (hb' : arrayNode part info element v' = .ok b')
    (heach : ∀ items items', v = .array items → v' = .array items' →
      ∀ w ∈ items, ∀ w' ∈ items', Tells t p part element w w')
    (h : b ++ r = b' ++ r') : Same t p (.array info element) v v' ∧ r = r' := by
  obtain ⟨hnarrow, data, rfl, hgiven⟩ | ⟨hwide, items, rest, rfl, hrest, rfl⟩ := arrayNode_eq_ok hb
  · obtain ⟨-, data', rfl, hgiven'⟩ | ⟨hwide, -⟩ := arrayNode_eq_ok hb'
    · obtain ⟨hcanonical, hr⟩ := Value.dynamic_append_inj (.bin (length_of_given hshort hgiven))
        (.bin (length_of_given hshort' hgiven')) h
      obtain rfl := Canonical.bin.inj hcanonical
      exact ⟨.byteArray hnarrow hgiven hgiven', hr⟩
    · rw [hnarrow] at hwide
      cases hwide
  · obtain ⟨hnarrow, -⟩ | ⟨-, items', rest', rfl, hrest', rfl⟩ := arrayNode_eq_ok hb'
    · rw [hwide] at hnarrow
      cases hnarrow
    · obtain ⟨hlen, hitems, hr⟩ := items_append_inj hshort hshort' hrest hrest'
        (heach items items' rfl rfl) h
      exact ⟨.array hwide hlen hitems, hr⟩

/-- Two pointers with the same bytes, if what is there is never encoded as nil. -/
theorem ptr_append_inj {pointee : Shape} {v v' : Value}
    (hb : node t p part (.ptr pointee) v = .ok b) (hb' : node t p part (.ptr pointee) v' = .ok b')
    (hpresent : v ≠ .nil → ∀ a r r', part pointee v = .ok a → a ++ r ≠ Wire.nil ++ r')
    (hpresent' : v' ≠ .nil → ∀ a r r', part pointee v' = .ok a → a ++ r ≠ Wire.nil ++ r')
    (hthere : v ≠ .nil → v' ≠ .nil → Tells t p part pointee v v') (h : b ++ r = b' ++ r') :
    Same t p (.ptr pointee) v v' ∧ r = r' := by
  by_cases hn : v = .nil
  · subst hn
    obtain rfl := Except.ok.inj hb
    by_cases hn' : v' = .nil
    · subst hn'
      obtain rfl := Except.ok.inj hb'
      exact ⟨.absent, List.append_cancel_left h⟩
    · rw [node_ptr hn'] at hb'
      exact absurd h.symm (hpresent' hn' _ _ _ hb')
  · rw [node_ptr hn] at hb
    by_cases hn' : v' = .nil
    · subst hn'
      obtain rfl := Except.ok.inj hb'
      exact absurd h (hpresent hn _ _ _ hb)
    · rw [node_ptr hn'] at hb'
      obtain ⟨hsame, hr⟩ := hthere hn hn' _ _ _ _ hb hb' h
      exact ⟨.present hn hn' hsame, hr⟩

/-- Two scalars or identities with the same bytes, whatever stands behind them. -/
theorem base_append_inj {info : BaseInfo} {v v' : Value} (hv : Readable t (.base info) v)
    (hv' : Readable t (.base info) v') (hb : node t p part (.base info) v = .ok b)
    (hb' : node t p part (.base info) v' = .ok b')
    (htarget : ∀ target, info.kind = .identifier →
      t.get? (info.typeName.getD "") = some target → Tells t p part target v v')
    (h : b ++ r = b' ++ r') : Same t p (.base info) v v' ∧ r = r' := by
  simp only [node] at hb hb'
  split at hb
  · rename_i hnamed
    rw [if_pos hnamed] at hb'
    split at hb
    · rename_i target hfound
      rw [hfound] at hb'
      obtain ⟨hsame, hr⟩ := htarget target hnamed hfound _ _ _ _ hb hb' h
      exact ⟨.identity hnamed hfound hsame, hr⟩
    · cases hb
  · rename_i hplain
    rw [if_neg hplain] at hb'
    obtain ⟨h32, h64⟩ := hv.floats info v .here
    obtain ⟨h32', h64'⟩ := hv'.floats info v' .here
    obtain ⟨hcanonical, heq, hr⟩ := Encoder.scalar_append_inj hb hb' hv.short hv'.short
      (fun hk => ⟨h32 hk, h32' hk⟩) (fun hk => ⟨h64 hk, h64' hk⟩) h
    by_cases hany : info.kind = .interface
    · exact ⟨.interface hany hcanonical, hr⟩
    · obtain rfl := heq hany
      exact ⟨.scalar hplain hany, hr⟩

end

/-- The format shows where an encoding ends and what it encodes, at any depth. -/
theorem bytes_append_inj {t : Table} {p : Protocol} (hT : t.IsFinal)
    (hnames : ∀ name s, t.get? name = some s → s.Everywhere (NamesDistinct p))
    (hshort : ∀ name s, t.get? name = some s → s.Everywhere ShortStruct)
    {depth : Nat} {s : Shape} {v v' : Value} (hs : s.IsFinal)
    (hsn : s.Everywhere (NamesDistinct p)) (hss : s.Everywhere ShortStruct)
    (hv : Readable t s v) (hv' : Readable t s v') : Tells t p (bytes t p depth) s v v' := by
  induction depth generalizing s v v' with
  | zero =>
    intro b b' r r' hb
    cases hb
  | succ depth ih =>
    -- what is said of the parts, for two parts of the same shape
    have hchild {s' : Shape} {w w' : Value} (hc : Child t s v s' w) (hc' : Child t s v' s' w') :
        Tells t p (bytes t p depth) s' w w' :=
      ih (Encoder.isFinal_child hT hs hc) (Encoder.everywhere_child hnames hsn hc)
        (Encoder.everywhere_child hshort hss hc) (hv.child hc) (hv'.child hc')
    intro b b' r r' hb hb' h
    rw [bytes] at hb hb'
    cases s with
    | struct info fields =>
      cases v with
      | record values =>
        cases v' with
        | record values' =>
          exact structNode_append_inj hs.here hsn.here hss.here hb hb'
            (fun f hf w w' hw hw' => hchild (.field hf hw) (.field hf hw')) h
        | _ => cases hb'
      | _ => cases hb
    | map key value =>
      cases v with
      | map entries =>
        cases v' with
        | map entries' =>
          obtain ⟨rest, hrest, hb⟩ := bind_eq_ok hb
          obtain rfl := Except.ok.inj hb
          obtain ⟨rest', hrest', hb'⟩ := bind_eq_ok hb'
          obtain rfl := Except.ok.inj hb'
          exact mapEntries_append_inj hv.short hv'.short hrest hrest'
            (fun e he e' he' => hchild (.entry he) (.entry he')) h
        | _ => cases hb'
      | _ => cases hb
    | slice element =>
      cases v with
      | array items =>
        cases v' with
        | array items' =>
          obtain ⟨rest, hrest, hb⟩ := bind_eq_ok hb
          obtain rfl := Except.ok.inj hb
          obtain ⟨rest', hrest', hb'⟩ := bind_eq_ok hb'
          obtain rfl := Except.ok.inj hb'
          obtain ⟨hlen, hitems, hr⟩ := items_append_inj hv.short hv'.short hrest hrest'
            (fun w hw w' hw' => hchild (.element hw) (.element hw')) h
          exact ⟨.slice hlen hitems, hr⟩
        | _ => cases hb'
      | _ => cases hb
    | array info element =>
      refine arrayNode_append_inj hv.short hv'.short hb hb' ?_ h
      rintro items items' rfl rfl w hw w' hw'
      exact hchild (.item hw) (.item hw')
    | ptr pointee =>
      have hpresent {w : Value} (hw : Readable t (.ptr pointee) w) (hn : w ≠ .nil) (a r r' : Bytes)
          (ha : bytes t p depth pointee w = .ok a) : a ++ r ≠ Wire.nil ++ r' :=
        bytes_ne_nil_append hT hs.2 (hw.child (.pointee hn)) hn ha r r'
      exact ptr_append_inj hb hb' (hpresent hv) (hpresent hv')
        (fun hn hn' => hchild (.pointee hn) (.pointee hn')) h
    | base info =>
      exact base_append_inj hv hv' hb hb'
        (fun target hnamed hfound => hchild (.target hnamed hfound) (.target hnamed hfound)) h

end Format

namespace Encoder

/-- Over a finalized table, an encoding with anything behind it shows where it ends, and the value
up to what the format leaves out. Lengths fit 32 bits, floating point numbers have the width that
is declared, and no two live fields of a struct with string keys share their name. -/
theorem encode_append_inj (d : Directives) (t : Table) (p : Protocol) (fuse : Bool)
    (hnames : ∀ name s, ((Pipeline.standard d).finalizeAll t).get? name = some s →
      s.Everywhere (Format.NamesDistinct p))
    (hshort : ∀ name s, ((Pipeline.standard d).finalizeAll t).get? name = some s →
      s.Everywhere Format.ShortStruct)
    (name : String) (s : Shape) (hget : ((Pipeline.standard d).finalizeAll t).get? name = some s)
    (v v' : Value) (hv : v.Short) (hv' : v'.Short)
    (hfloats : Format.FloatsDeclared ((Pipeline.standard d).finalizeAll t) s v)
    (hfloats' : Format.FloatsDeclared ((Pipeline.standard d).finalizeAll t) s v')
    (b b' r r' : Bytes)
    (hb : (Encoder.mk ((Pipeline.standard d).finalizeAll t) p fuse).encode name v = .ok b)
    (hb' : (Encoder.mk ((Pipeline.standard d).finalizeAll t) p fuse).encode name v' = .ok b')
    (h : b ++ r = b' ++ r') :
    r = r' ∧ Same ((Pipeline.standard d).finalizeAll t) p s v v' := by
  let e := Encoder.mk ((Pipeline.standard d).finalizeAll t) p fuse
  have ht : e.table.IsFinal := Table.isFinal_finalizeAll d t
  have hfinal : s.IsFinal := (ht name s hget).1
  rw [encode_eq_encodeShape e hget, encodeShape_eq_bytes e ht hfinal] at hb hb'
  -- both encodings at one depth
  have hdeep := Format.bytes_eq_ok_of_le (Nat.le_max_left _ (e.depthBudget s v')) hb
  have hdeep' := Format.bytes_eq_ok_of_le (Nat.le_max_right (e.depthBudget s v) _) hb'
  exact (Format.bytes_append_inj ht hnames hshort hfinal (hnames name s hget) (hshort name s hget)
    ⟨hv, hfloats⟩ ⟨hv', hfloats'⟩ b b' r r' hdeep hdeep' h).symm

/-- A sample with its mark, its level, something of any kind, and perhaps the sample before it. -/
def sample : Shape := .struct { name := "Sample", hasOmitEmptyTags := true } [
  .mk { name := "mark" } (.array { size := "2", resolved := some 2 } (.ofKind .uint8)),
  .mk { name := "level", omitEmpty := true } (.ofKind .float64),
  .mk { name := "extra" } (.ofKind .interface),
  .mk { name := "before", omitEmpty := true } (.ptr (.ident "Sample"))]

def sampleTable : Table := Table.ofList [("Sample", sample)]

def sampleValue (mark : Value) (level : UInt64) (extra : Value) : Value := .record [
  ("mark", mark), ("level", .float64 level), ("extra", extra), ("before", .nil)]

theorem short_sampleValue {mark extra : Value} (hmark : mark.Short) (hextra : extra.Short)
    (level : UInt64) : (sampleValue mark level extra).Short := by
  have hnames : ∀ name ∈ ["mark", "level", "extra", "before"],
      (utf8 name).length < UInt32.size := by decide +kernel
  refine .record (by simp [UInt32.size]) (fun e he => hnames e.1 (List.mem_map_of_mem he)) ?_
  exact List.forall_mem_cons.2 ⟨hmark, List.forall_mem_cons.2 ⟨.float64 _,
    List.forall_mem_cons.2 ⟨hextra, List.forall_mem_singleton.2 .nil⟩⟩⟩

theorem floatsDeclared_sampleValue (mark : Value) (level : UInt64) (extra : Value) :
    Format.FloatsDeclared sampleTable sample (sampleValue mark level extra) := by
  have hplain {k : Kind} {v : Value} (hk : k ≠ .identifier) (h32 : k ≠ .float32)
      (h64 : k = .float64 → ∃ bits, v = .float64 bits) :
      Format.FloatsDeclared sampleTable (.ofKind k) v := by
    intro info w hr
    cases hr with
    | here => exact ⟨fun h => absurd h h32, h64⟩
    | step hc _ =>
      cases hc with
      | target hnamed _ => exact absurd hnamed hk
  intro info w hr
  cases hr with
  | step hc hr =>
    cases hc with
    | field hlive hheld =>
      have hlive := (List.mem_filter.1 hlive).1
      simp only [List.mem_cons, List.not_mem_nil, or_false] at hlive
      rcases hlive with rfl | rfl | rfl | rfl
      · cases hr with
        | step hc hr =>
          cases hc with
          | item _ => exact hplain (by decide) (by decide) (by simp) info w hr
      · obtain rfl := Option.some.inj hheld
        exact hplain (by decide) (by decide) (fun _ => ⟨level, rfl⟩) info w hr
      · exact hplain (by decide) (by decide) (by simp) info w hr
      · obtain rfl := Option.some.inj hheld
        cases hr with
        | step hc _ =>
          cases hc with
          | pointee hne => exact absurd rfl hne

/-- The mark is given as a whole or as its elements, the levels are the two zeros, and the number
that may be of any kind is signed or not. -/
theorem same_samples :
    (Encoder.mk ((Pipeline.standard {}).finalizeAll sampleTable) .msgp2 true).encode "Sample"
      (sampleValue (.bin [1, 2]) 0 (.int 5)) =
        .ok [0x82, 0xa4, 109, 97, 114, 107, 0xc4, 2, 1, 2, 0xa5, 101, 120, 116, 114, 97, 5] ∧
    (Encoder.mk ((Pipeline.standard {}).finalizeAll sampleTable) .msgp2 true).encode "Sample"
      (sampleValue (.array [.uint 1, .uint 2]) 0x8000000000000000 (.uint 5)) =
        .ok [0x82, 0xa4, 109, 97, 114, 107, 0xc4, 2, 1, 2, 0xa5, 101, 120, 116, 114, 97, 5] ∧
    Same ((Pipeline.standard {}).finalizeAll sampleTable) .msgp2 sample
      (sampleValue (.bin [1, 2]) 0 (.int 5))
      (sampleValue (.array [.uint 1, .uint 2]) 0x8000000000000000 (.uint 5)) := by
  have hsample {Q : Shape → Prop} (hQ : sample.Everywhere Q) (name : String) (s : Shape)
      (hs : ((Pipeline.standard {}).finalizeAll sampleTable).get? name = some s) :
      s.Everywhere Q := by
    change (if "Sample" = name then some sample else none) = some s at hs
    split at hs
    · exact Option.some.inj hs ▸ hQ
    · cases hs
  have hnames : sample.Everywhere (Format.NamesDistinct .msgp2) :=
    ⟨fun _ _ => by decide, ⟨trivial, trivial⟩, trivial, trivial, ⟨trivial, trivial⟩, trivial⟩
  have hshort : sample.Everywhere Format.ShortStruct :=
    ⟨⟨by decide, by decide +kernel⟩, ⟨trivial, trivial⟩, trivial, trivial, ⟨trivial, trivial⟩,
      trivial⟩
  have hbin : (Value.bin [1, 2]).Short := .bin (by decide)
  have harray : (Value.array [.uint 1, .uint 2]).Short :=
    .array (by decide) (by simp [Value.Short.uint])
  refine ⟨rfl, rfl, ?_⟩
  exact (encode_append_inj {} sampleTable .msgp2 true (hsample hnames) (hsample hshort) "Sample"
    sample rfl _ _ (short_sampleValue hbin (.int 5) _) (short_sampleValue harray (.uint 5) _)
    (floatsDeclared_sampleValue _ _ _) (floatsDeclared_sampleValue _ _ _) _ _ [0xc0] [0xc0] rfl rfl
    rfl).2

end Encoder

end Packwright
