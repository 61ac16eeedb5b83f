import Packwright.Proofs.Conformance

/-
  Where the faults of an encoding come from. `OwnFault` lists what can be wrong with one position:
  the keys of a struct, the size of an array, a struct with too many fields, a value that does not
  fit its shape, an identifier that names nothing. `node_eq_error`: one level fails with such a
  fault of its own or with that of a child. So a fault of a whole encoding is that of some position
  on the way, unless the recursion was cut off (`bytes_eq_error`).
-/

namespace Packwright

theorem bind_eq_error {ε α β : Type} {x : Except ε α} {f : α → Except ε β} {fault : ε}
    (h : (x >>= f) = .error fault) :
    x = .error fault ∨ ∃ a, x = .ok a ∧ f a = .error fault := by
  cases x with
  | error fault' => exact Or.inl (congrArg Except.error (Except.error.inj h))
  | ok a => exact Or.inr ⟨a, rfl, h⟩

theorem mapM_eq_error {α β : Type} {f : α → Except Fault β} {xs : List α} {fault : Fault}
    (h : xs.mapM f = .error fault) : ∃ x ∈ xs, f x = .error fault := by
  induction xs with
  | nil => cases h
  | cons x rest ih =>
    rw [List.mapM_cons] at h
    rcases bind_eq_error h with hx | ⟨y, -, h⟩
    · exact ⟨x, List.mem_cons_self, hx⟩
    · rcases bind_eq_error h with hrest | ⟨ys, -, h⟩
      · obtain ⟨x', hx', hfault⟩ := ih hrest
        exact ⟨x', List.mem_cons_of_mem _ hx', hfault⟩
      · cases h

/-! ## Values that do not fit -/

/-- A value does not fit its shape. -/
def Fault.IsMismatch (fault : Fault) : Prop :=
  ∃ expected found, fault = .error (.mismatch expected found)

theorem isMismatch_wrongKind (expected : String) (v : Value) :
    (wrongKind expected v).IsMismatch := ⟨_, _, rfl⟩

namespace Encoder

theorem isMismatch_of_scalar {k : Kind} {v : Value} {fault : Fault}
    (h : scalar k v = .error fault) : fault.IsMismatch := by
  rw [(scalar_eq_error_iff.1 h).2]
  exact isMismatch_wrongKind _ _

theorem isMismatch_of_mapKey {k : KeyKind} {v : Value} {fault : Fault}
    (h : mapKey k v = .error fault) : fault.IsMismatch := by
  rw [(mapKey_eq_error_iff.1 h).2]
  exact isMismatch_wrongKind _ _

theorem isMismatch_of_byteArray {size : Nat} {v : Value} {fault : Fault}
    (h : byteArray size v = .error fault) : fault.IsMismatch := by
  cases byteArray_eq_error_iff.1 h with
  | kind => exact isMismatch_wrongKind _ _
  | element => exact isMismatch_wrongKind _ _
  | length => exact ⟨_, _, rfl⟩

end Encoder

/-! ## Faults of one position -/

namespace Format

/-- What can be wrong with a position, whatever its parts are. -/
inductive OwnFault (p : Protocol) : Shape → Fault → Prop where
  /-- The zids of a struct cannot serve as keys. -/
  | keys {info : StructInfo} {fields : List Field} {fault : Fault}
      (check : checkKeys p info (liveFields fields) = .error fault) :
      OwnFault p (.struct info fields) fault
  /-- The size of an array is not known. -/
  | size {info : ArrayInfo} {element : Shape} {fault : Fault}
      (unknown : info.resolvedSize = .error fault) : OwnFault p (.array info element) fault
  /-- A struct has too many fields for its header. -/
  | crowd {info : StructInfo} {fields : List Field}
      (many : UInt32.size ≤ (liveFields fields).length + 1) :
      OwnFault p (.struct info fields) .overflow
  /-- The value does not fit. -/
  | mismatch {s : Shape} {fault : Fault} (unfit : fault.IsMismatch) : OwnFault p s fault
  /-- A record holds nothing for a live field. -/
  | field {s : Shape} (struct field : String) : OwnFault p s (.error (.missingField struct field))
  /-- An identifier names nothing. -/
  | name {s : Shape} (name : String) : OwnFault p s (.error (.unknownIdentity name))

theorem checkKeys_eq_error {p : Protocol} {info : StructInfo} {live : List Field} {fault : Fault}
    (h : checkKeys p info live = .error fault) :
    hasIntKeys p info = true ∧
      ∃ e, fault = .error e ∧ Layout.checkZids info.name [] live = .error e := by
  unfold checkKeys at h
  split at h
  · rename_i hint
    refine ⟨hint, ?_⟩
    cases hz : Layout.checkZids info.name [] live with
    | ok u => rw [hz] at h; cases h
    | error e =>
      rw [hz] at h
      exact ⟨e, (Except.error.inj h).symm, rfl⟩
  · cases h

theorem mapStart_eq_error {p : Protocol} {info : StructInfo} {n : Nat} {fault : Fault}
    (h : mapStart p info n = .error fault) : fault = .overflow ∧ UInt32.size ≤ n + 1 := by
  rcases OnlyOverflows.mapStart p info n with ⟨hn, hstart⟩ | ⟨start, hstart⟩
  · exact ⟨Except.error.inj (h.symm.trans hstart), hn⟩
  · rw [hstart] at h
    cases h

theorem gather_eq_error {α : Type} {f : α → Except Fault Bytes} {xs : List α} {fault : Fault}
    (h : gather f xs = .error fault) : ∃ x ∈ xs, f x = .error fault := by
  induction xs with
  | nil => cases h
  | cons x rest ih =>
    rcases bind_eq_error h with hx | ⟨b, -, h⟩
    · exact ⟨x, List.mem_cons_self, hx⟩
    · rcases bind_eq_error h with hrest | ⟨bs, -, h⟩
      · obtain ⟨x', hx', hfault⟩ := ih hrest
        exact ⟨x', List.mem_cons_of_mem _ hx', hfault⟩
      · cases h

/-- A fault behind bytes that are already there is that of a member. -/
theorem prepend_gather_eq_error {α : Type} {f : α → Except Fault Bytes} {xs : List α}
    {start : Bytes} {fault : Fault}
    (h : (do return start ++ (← gather f xs) : Except Fault Bytes) = .error fault) :
    ∃ x ∈ xs, f x = .error fault := by
  rcases bind_eq_error h with h | ⟨b, -, h⟩
  · exact gather_eq_error h
  · cases h

theorem length_of_mapM_eq_ok {α β : Type} {f : α → Except Fault β} {xs : List α} {ys : List β}
    (h : xs.mapM f = .ok ys) : ys.length = xs.length := by
  induction xs generalizing ys with
  | nil =>
    obtain rfl := Except.ok.inj h
    rfl
  | cons x rest ih =>
    rw [List.mapM_cons] at h
    obtain ⟨y, -, h⟩ := bind_eq_ok h
    obtain ⟨ys', hys, h⟩ := bind_eq_ok h
    obtain rfl := Except.ok.inj h
    simp [ih hys]

theorem fieldValue_eq_error {struct : String} {values : List (String × Value)} {f : Field}
    {fault : Fault} (h : fieldValue struct values f = .error fault) :
    fault = .error (.missingField struct f.info.name) := by
  unfold fieldValue at h
  split at h
  · cases h
  · exact (Except.error.inj h).symm

variable {t : Table} {p : Protocol} {part : Shape → Value → Except Fault Bytes}

theorem structNode_eq_error {info : StructInfo} {fields : List Field}
    {values : List (String × Value)} {fault : Fault}
    (h : structNode p part info fields values = .error fault) :
    OwnFault p (.struct info fields) fault ∨ ∃ s' v',
      Child t (.struct info fields) (.record values) s' v' ∧ part s' v' = .error fault := by
  rcases bind_eq_error h with hkeys | ⟨_, -, h⟩
  · exact Or.inl (.keys hkeys)
  rcases bind_eq_error h with hfield | ⟨held, hheld, h⟩
  · obtain ⟨f, -, hf⟩ := mapM_eq_error hfield
    rw [fieldValue_eq_error hf]
    exact Or.inl (.field _ _)
  have hchild : ∀ x ∈ held, Child t (.struct info fields) (.record values) x.1.value x.2 := by
    intro x hx
    obtain ⟨hlive, hget⟩ := mem_of_fieldValue hheld hx
    exact .field hlive hget
  split at h
  · obtain ⟨x, hx, hfault⟩ := prepend_gather_eq_error h
    exact Or.inr ⟨_, _, hchild x hx, hfault⟩
  · rcases bind_eq_error h with hstart | ⟨start, -, h⟩
    · obtain ⟨rfl, hmany⟩ := mapStart_eq_error hstart
      refine Or.inl (.crowd (Nat.le_trans hmany (Nat.succ_le_succ ?_)))
      rw [← length_of_mapM_eq_ok hheld]
      exact List.length_filter_le _ _
    · obtain ⟨x, hx, hentry⟩ := prepend_gather_eq_error h
      rcases bind_eq_error hentry with hfault | ⟨b, -, hentry⟩
      · exact Or.inr ⟨_, _, hchild x (List.mem_filter.1 hx).1, hfault⟩
      · cases hentry

theorem arrayNode_eq_error {info : ArrayInfo} {element : Shape} {v : Value} {fault : Fault}
    (h : arrayNode part info element v = .error fault) :
    OwnFault p (.array info element) fault ∨ ∃ s' v',
      Child t (.array info element) v s' v' ∧ part s' v' = .error fault := by
  rcases bind_eq_error h with hsize | ⟨size, -, h⟩
  · exact Or.inl (.size hsize)
  split at h
  · rcases bind_eq_error h with hbytes | ⟨data, -, h⟩
    · exact Or.inl (.mismatch (Encoder.isMismatch_of_byteArray hbytes))
    · cases h
  · cases v with
    | array items =>
      dsimp only at h
      split at h
      · obtain ⟨w, hw, hfault⟩ := prepend_gather_eq_error h
        exact Or.inr ⟨_, _, .item hw, hfault⟩
      · obtain rfl := Except.error.inj h
        exact Or.inl (.mismatch ⟨_, _, rfl⟩)
    | _ =>
      obtain rfl := Except.error.inj h
      exact Or.inl (.mismatch (isMismatch_wrongKind _ _))

/-- One level fails for a reason of its own, or as one of its children does. -/
theorem node_eq_error {s : Shape} {v : Value} {fault : Fault}
    (h : node t p part s v = .error fault) :
    OwnFault p s fault ∨ ∃ s' v', Child t s v s' v' ∧ part s' v' = .error fault := by
  have hkind : ∀ expected, (.error (wrongKind expected v) : Except Fault Bytes) = .error fault →
      OwnFault p s fault := by
    intro expected hfault
    obtain rfl := Except.error.inj hfault
    exact .mismatch (isMismatch_wrongKind _ _)
  cases s with
  | struct info fields =>
    cases v with
    | record values => exact structNode_eq_error h
    | _ => exact Or.inl (hkind _ h)
  | map key value =>
    cases v with
    | map entries =>
      obtain ⟨e, he, hentry⟩ := prepend_gather_eq_error h
      rcases bind_eq_error hentry with hkey | ⟨k, -, hentry⟩
      · exact Or.inl (.mismatch (Encoder.isMismatch_of_mapKey hkey))
      rcases bind_eq_error hentry with hfault | ⟨b, -, hentry⟩
      · exact Or.inr ⟨_, _, .entry he, hfault⟩
      · cases hentry
    | _ => exact Or.inl (hkind _ h)
  | slice element =>
    cases v with
    | array items =>
      obtain ⟨w, hw, hfault⟩ := prepend_gather_eq_error h
      exact Or.inr ⟨_, _, .element hw, hfault⟩
    | _ => exact Or.inl (hkind _ h)
  | array info element => exact arrayNode_eq_error h
  | ptr pointee =>
    by_cases hnil : v = .nil
    · subst hnil
      cases h
    · rw [node_ptr hnil] at h
      exact Or.inr ⟨_, _, .pointee hnil, h⟩
  | base info =>
    simp only [node] at h
    split at h
    · rename_i hnamed
      cases hget : t.get? (info.typeName.getD "") with
      | none =>
        rw [hget] at h
        obtain rfl := Except.error.inj h
        exact Or.inl (.name _)
      | some target =>
        rw [hget] at h
        exact Or.inr ⟨_, _, .target hnamed hget, h⟩
    · exact Or.inl (.mismatch (Encoder.isMismatch_of_scalar h))

/-! ## Faults of an encoding -/

/-- A fault of an encoding is that of a position it goes through, unless it was cut off. -/
theorem bytes_eq_error {depth : Nat} {s : Shape} {v : Value} {fault : Fault}
    (h : bytes t p depth s v = .error fault) :
    fault = .tooDeep ∨ ∃ s' v', Reach t s v s' v' ∧ OwnFault p s' fault := by
  induction depth generalizing s v with
  | zero => exact Or.inl (Except.error.inj h).symm
  | succ depth ih =>
    rcases node_eq_error h with hown | ⟨s', v', hchild, hpart⟩
    · exact Or.inr ⟨s, v, .here, hown⟩
    · refine (ih hpart).imp_right ?_
      rintro ⟨s'', v'', hreach, hown⟩
      exact ⟨s'', v'', .step hchild hreach, hown⟩

/-- A position has an error to report, or too many fields. -/
theorem OwnFault.reported_or_crowded {s : Shape} {fault : Fault} (h : OwnFault p s fault) :
    (∃ cause, fault = .error cause) ∨ (fault = .overflow ∧ ∃ info fields,
      s = .struct info fields ∧ UInt32.size ≤ (liveFields fields).length + 1) := by
  cases h with
  | keys check =>
    obtain ⟨-, e, rfl, -⟩ := checkKeys_eq_error check
    exact Or.inl ⟨e, rfl⟩
  | size unknown =>
    unfold ArrayInfo.resolvedSize at unknown
    split at unknown
    · cases unknown
    · exact Or.inl ⟨_, (Except.error.inj unknown).symm⟩
  | crowd many => exact Or.inr ⟨rfl, _, _, rfl, many⟩
  | mismatch unfit =>
    obtain ⟨expected, found, rfl⟩ := unfit
    exact Or.inl ⟨_, rfl⟩
  | field struct field => exact Or.inl ⟨_, rfl⟩
  | name name => exact Or.inl ⟨_, rfl⟩

end Format

end Packwright
