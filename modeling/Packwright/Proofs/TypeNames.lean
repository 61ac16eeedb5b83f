import Packwright.Proofs.Descriptor

/-
  Type names tell shapes apart. The type of a field in a schema is one text, in which every level
  of the shape puts something in front of what is below it. `IsSpelled` are the shapes whose text
  is all their own, without names that somebody declared. For these the text starts differently at
  every form of node, and where a map names its keys or an array its size, a bracket ends it; the
  `of_typeName_` lemmas read one level off the front that way. Words of kinds may start alike, but
  nothing stands behind them.

  `typeName_tells_structure`: two such shapes have the same text exactly when they are the same but
  for the declared size of an array and whether a scalar is converted. So do two fields with the
  same type in a schema, and two tables with the same schema.
-/

namespace Packwright

namespace Shape

/-! ## Shapes that are spelled out -/

/-- A node whose part of a type name is its own: no struct, and no scalar with a declared name. -/
def IsSpelledNode : Shape → Prop
  | struct _ _ => False
  | array info _ => info.resolved.isSome
  | base info => info.typeName = none
  | _ => True

/-- A shape made of maps, slices, arrays of known size, pointers and scalars without a declared
name. -/
def IsSpelled (s : Shape) : Prop := s.Everywhere IsSpelledNode

/-- The same forms in the same nesting, with the same keys of maps, sizes of arrays and kinds of
scalars. -/
inductive SameStructure : Shape → Shape → Prop where
  | map {key : KeyKind} {value value' : Shape} (values : SameStructure value value') :
      SameStructure (.map key value) (.map key value')
  | slice {element element' : Shape} (elements : SameStructure element element') :
      SameStructure (.slice element) (.slice element')
  | array {info info' : ArrayInfo} {element element' : Shape} {n : Nat}
      (size : info.resolved = some n) (size' : info'.resolved = some n)
      (elements : SameStructure element element') :
      SameStructure (.array info element) (.array info' element')
  | ptr {pointee pointee' : Shape} (pointees : SameStructure pointee pointee') :
      SameStructure (.ptr pointee) (.ptr pointee')
  | base {info info' : BaseInfo} (kind : info.kind = info'.kind) :
      SameStructure (.base info) (.base info')

/-! ## One level of a type name -/

theorem toList_typeName_map (key : KeyKind) (value : Shape) :
    (map key value).typeName.toList =
      'm' :: 'a' :: 'p' :: '[' :: (key.word.toList ++ ']' :: value.typeName.toList) := by
  simp [typeName]

theorem toList_typeName_slice (element : Shape) :
    (slice element).typeName.toList = '[' :: ']' :: element.typeName.toList := by
  simp [typeName]

theorem toList_typeName_array {info : ArrayInfo} {n : Nat} (h : info.resolved = some n)
    (element : Shape) : (array info element).typeName.toList =
      '[' :: (Decimal.digits n ++ ']' :: element.typeName.toList) := by
  simp [typeName, h, Decimal.ofNat]

theorem toList_typeName_ptr (pointee : Shape) :
    (ptr pointee).typeName.toList = '*' :: pointee.typeName.toList := by
  simp [typeName]

theorem toList_typeName_base {info : BaseInfo} (h : info.typeName = none) :
    (base info).typeName.toList = info.kind.word.toList := by
  simp [typeName, h]

theorem word_start (k : Kind) (rest : List Char) :
    k.word.toList ≠ 'm' :: rest ∧ k.word.toList ≠ '[' :: rest ∧ k.word.toList ≠ '*' :: rest := by
  cases k <;> simp [Kind.word]

/-- A numeral with a bracket behind it shows its number and where it ends. -/
theorem digits_append_inj {n n' : Nat} {rest rest' : List Char}
    (h : Decimal.digits n ++ ']' :: rest = Decimal.digits n' ++ ']' :: rest') :
    n = n' ∧ rest = rest' := by
  have htake (n : Nat) (rest : List Char) :
      (Decimal.digits n ++ ']' :: rest).takeWhile Decimal.isDigit = Decimal.digits n := by
    rw [List.takeWhile_append_of_pos fun c hc => Decimal.isDigit_of_mem_digits hc]
    have hbracket : Decimal.isDigit ']' = false := rfl
    rw [List.takeWhile_cons_of_neg (by simp [hbracket]), List.append_nil]
  have hdigits : Decimal.digits n = Decimal.digits n' := by
    rw [← htake n rest, h, htake]
  rw [hdigits] at h
  have hrest := List.append_cancel_left h
  refine ⟨?_, (List.cons.inj hrest).2⟩
  rw [← Decimal.value_digits n, hdigits, Decimal.value_digits]

theorem digits_ne_bracket (n : Nat) (rest rest' : List Char) :
    Decimal.digits n ++ rest ≠ ']' :: rest' := by
  obtain ⟨c, cs, hcs⟩ := List.exists_cons_of_ne_nil (Decimal.digits_ne_nil n)
  have hc : Decimal.isDigit c = true := Decimal.isDigit_of_mem_digits (n := n) (by simp [hcs])
  intro h
  rw [hcs, List.cons_append] at h
  rw [(List.cons.inj h).1] at hc
  exact absurd hc (by decide)

theorem keyWord_append_inj {key key' : KeyKind} {rest rest' : List Char}
    (h : key.word.toList ++ ']' :: rest = key'.word.toList ++ ']' :: rest') :
    key = key' ∧ rest = rest' := by
  cases key with
  | int64 =>
    cases key' with
    | int64 => simpa [KeyKind.word] using h
    | string => simp [KeyKind.word] at h
  | string =>
    cases key' with
    | int64 => simp [KeyKind.word] at h
    | string => simpa [KeyKind.word] using h

/-! ## Reading a level off the front -/

section

variable {s : Shape} {rest : List Char}

theorem of_typeName_map {key : KeyKind} (hs : s.IsSpelled) (h : s.typeName.toList =
    'm' :: 'a' :: 'p' :: '[' :: (key.word.toList ++ ']' :: rest)) :
    ∃ value, s = map key value ∧ value.typeName.toList = rest := by
  cases s with
  | struct info fields => exact hs.here.elim
  | map key' value =>
    rw [toList_typeName_map] at h
    obtain ⟨rfl, hrest⟩ := keyWord_append_inj (by simpa using h)
    exact ⟨value, rfl, hrest⟩
  | slice element => simp [toList_typeName_slice] at h
  | array info element =>
    obtain ⟨n, hn⟩ := Option.isSome_iff_exists.1 hs.here
    simp [toList_typeName_array hn] at h
  | ptr pointee => simp [toList_typeName_ptr] at h
  | base info =>
    rw [toList_typeName_base hs] at h
    exact absurd h (word_start _ _).1

theorem of_typeName_slice (hs : s.IsSpelled) (h : s.typeName.toList = '[' :: ']' :: rest) :
    ∃ element, s = slice element ∧ element.typeName.toList = rest := by
  cases s with
  | struct info fields => exact hs.here.elim
  | map key value => simp [toList_typeName_map] at h
  | slice element =>
    rw [toList_typeName_slice] at h
    exact ⟨element, rfl, by simpa using h⟩
  | array info element =>
    obtain ⟨n, hn⟩ := Option.isSome_iff_exists.1 hs.here
    rw [toList_typeName_array hn] at h
    exact absurd (List.cons.inj h).2 (digits_ne_bracket n _ _)
  | ptr pointee => simp [toList_typeName_ptr] at h
  | base info =>
    rw [toList_typeName_base hs] at h
    exact absurd h (word_start _ _).2.1

theorem of_typeName_array {n : Nat} (hs : s.IsSpelled)
    (h : s.typeName.toList = '[' :: (Decimal.digits n ++ ']' :: rest)) :
    ∃ info element, s = array info element ∧ info.resolved = some n ∧
      element.typeName.toList = rest := by
  cases s with
  | struct info fields => exact hs.here.elim
  | map key value => simp [toList_typeName_map] at h
  | slice element =>
    rw [toList_typeName_slice] at h
    exact absurd (List.cons.inj h).2.symm (digits_ne_bracket n _ _)
  | array info element =>
    obtain ⟨m, hm⟩ := Option.isSome_iff_exists.1 hs.here
    rw [toList_typeName_array hm] at h
    obtain ⟨rfl, hrest⟩ := digits_append_inj (List.cons.inj h).2
    exact ⟨info, element, rfl, hm, hrest⟩
  | ptr pointee => simp [toList_typeName_ptr] at h
  | base info =>
    rw [toList_typeName_base hs] at h
    exact absurd h (word_start _ _).2.1

theorem of_typeName_ptr (hs : s.IsSpelled) (h : s.typeName.toList = '*' :: rest) :
    ∃ pointee, s = ptr pointee ∧ pointee.typeName.toList = rest := by
  cases s with
  | struct info fields => exact hs.here.elim
  | map key value => simp [toList_typeName_map] at h
  | slice element => simp [toList_typeName_slice] at h
  | array info element =>
    obtain ⟨n, hn⟩ := Option.isSome_iff_exists.1 hs.here
    simp [toList_typeName_array hn] at h
  | ptr pointee =>
    rw [toList_typeName_ptr] at h
    exact ⟨pointee, rfl, (List.cons.inj h).2⟩
  | base info =>
    rw [toList_typeName_base hs] at h
    exact absurd h (word_start _ _).2.2

theorem of_typeName_base {k : Kind} (hs : s.IsSpelled) (h : s.typeName.toList = k.word.toList) :
    ∃ info, s = base info ∧ info.kind = k := by
  cases s with
  | struct info fields => exact hs.here.elim
  | map key value =>
    rw [toList_typeName_map] at h
    exact absurd h.symm (word_start k _).1
  | slice element =>
    rw [toList_typeName_slice] at h
    exact absurd h.symm (word_start k _).2.1
  | array info element =>
    obtain ⟨n, hn⟩ := Option.isSome_iff_exists.1 hs.here
    rw [toList_typeName_array hn] at h
    exact absurd h.symm (word_start k _).2.1
  | ptr pointee =>
    rw [toList_typeName_ptr] at h
    exact absurd h.symm (word_start k _).2.2
  | base info =>
    rw [toList_typeName_base hs, String.toList_inj] at h
    have hkind := Kind.ofWord?_word info.kind
    rw [h, Kind.ofWord?_word] at hkind
    exact ⟨info, rfl, (Option.some.inj hkind).symm⟩

end

/-! ## Whole type names -/

theorem sameStructure_of_typeName {s s' : Shape} (hs : s.IsSpelled) (hs' : s'.IsSpelled)
    (h : s'.typeName.toList = s.typeName.toList) : SameStructure s s' := by
  induction s generalizing s' with
  | struct info fields => exact hs.here.elim
  | map key value ih =>
    rw [toList_typeName_map] at h
    obtain ⟨value', rfl, hvalue⟩ := of_typeName_map hs' h
    exact .map (ih hs.2 hs'.2 hvalue)
  | slice element ih =>
    rw [toList_typeName_slice] at h
    obtain ⟨element', rfl, helement⟩ := of_typeName_slice hs' h
    exact .slice (ih hs.2 hs'.2 helement)
  | array info element ih =>
    obtain ⟨n, hn⟩ := Option.isSome_iff_exists.1 hs.here
    rw [toList_typeName_array hn] at h
    obtain ⟨info', element', rfl, hn', helement⟩ := of_typeName_array hs' h
    exact .array hn hn' (ih hs.2 hs'.2 helement)
  | ptr pointee ih =>
    rw [toList_typeName_ptr] at h
    obtain ⟨pointee', rfl, hpointee⟩ := of_typeName_ptr hs' h
    exact .ptr (ih hs.2 hs'.2 hpointee)
  | base info =>
    rw [toList_typeName_base hs] at h
    obtain ⟨info', rfl, hkind⟩ := of_typeName_base hs' h
    exact .base hkind.symm

theorem SameStructure.typeName_eq {s s' : Shape} (h : SameStructure s s') (hs : s.IsSpelled)
    (hs' : s'.IsSpelled) : s.typeName = s'.typeName := by
  induction h with
  | map _ ih => rw [typeName, typeName, ih hs.2 hs'.2]
  | slice _ ih => rw [typeName, typeName, ih hs.2 hs'.2]
  | array size size' _ ih => simp only [typeName, size, size', ih hs.2 hs'.2]
  | ptr _ ih => rw [typeName, typeName, ih hs.2 hs'.2]
  | base kind =>
    have hname : _ = none := hs
    have hname' : _ = none := hs'
    simp only [typeName, hname, hname', kind]

theorem typeName_eq_iff {s s' : Shape} (hs : s.IsSpelled) (hs' : s'.IsSpelled) :
    s.typeName = s'.typeName ↔ SameStructure s s' :=
  ⟨fun h => sameStructure_of_typeName hs hs' (by rw [h]), fun h => h.typeName_eq hs hs'⟩

end Shape

/-! ## Schemas -/

namespace Schema

open Shape (SameStructure)

/-- Two declarations of a field with the same structure, as far as types tell: both are skipped or
both are written, and then they have the same structure if their types are spelled out. -/
structure SameField (f f' : Field) : Prop where
  skip : f.info.skip = f'.info.skip
  spelled : f.info.skip = false → f.value.IsSpelled → f'.value.IsSpelled →
    SameStructure f.value f'.value

/-- Two structs with the same fields. -/
def SameFields (s s' : Shape) : Prop :=
  ∃ info fields info' fields', s = .struct info fields ∧ s' = .struct info' fields' ∧
    List.Forall₂ SameField fields fields'

/-- The type of a written field is the name of its type. -/
theorem type_ofField {f : Field} (h : f.info.skip = false) :
    (ofField f).type = f.value.typeName := by
  simp [ofField, h]

theorem sameField_of_ofField {f f' : Field} (h : ofField f = ofField f') : SameField f f' := by
  have hskip : f.info.skip = f'.info.skip := congrArg SchemaField.skip h
  refine ⟨hskip, fun hlive hs hs' => (Shape.typeName_eq_iff hs hs').1 ?_⟩
  rw [← type_ofField hlive, ← type_ofField (hskip.symm.trans hlive), h]

/-- Identities that a schema describes alike have the same fields. -/
theorem sameFields_of_describes {entries entries' : List (String × Shape)}
    {structs : List SchemaStruct} (h : List.Forall₂ Describes entries structs)
    (h' : List.Forall₂ Describes entries' structs) :
    List.Forall₂ (fun e e' => SameFields e.2 e'.2) entries entries' := by
  induction h generalizing entries' with
  | nil =>
    cases h'
    exact .nil
  | cons hd _ ih =>
    cases h' with
    | cons hd' hrest' =>
      obtain ⟨info, fields, hshape, rfl⟩ := hd
      obtain ⟨info', fields', hshape', hst⟩ := hd'
      have hfields : fields.map ofField = fields'.map ofField := (SchemaStruct.mk.inj hst).2
      rw [← List.forall₂_eq_eq_eq, List.forall₂_map_left_iff, List.forall₂_map_right_iff] at hfields
      exact .cons ⟨info, fields, info', fields', hshape, hshape',
        hfields.imp fun _ _ => sameField_of_ofField⟩ (ih hrest')

/-- Types that are spelled out tell the structure of shapes, and so do the types of written fields
in a schema: whatever changes in the structure of such a field changes its type. Two tables with
the same schema have identities with the same fields. -/
theorem typeName_tells_structure :
    (∀ s s' : Shape, s.IsSpelled → s'.IsSpelled →
      (s.typeName = s'.typeName ↔ SameStructure s s')) ∧
    (∀ f f' : Field, f.info.skip = false → f'.info.skip = false → f.value.IsSpelled →
      f'.value.IsSpelled →
        ((ofField f).type = (ofField f').type ↔ SameStructure f.value f'.value)) ∧
    ∀ t t' schema, extract t = .ok schema → extract t' = .ok schema →
      List.Forall₂ (fun e e' => SameFields e.2 e'.2) t.entries t'.entries := by
  refine ⟨fun s s' => Shape.typeName_eq_iff, fun f f' hf hf' hs hs' => ?_, ?_⟩
  · rw [type_ofField hf, type_ofField hf']
    exact Shape.typeName_eq_iff hs hs'
  · intro t t' schema h h'
    rcases extract_cases t with ⟨structs, hok, hall⟩ | ⟨e, herror, -⟩
    · rcases extract_cases t' with ⟨structs', hok', hall'⟩ | ⟨e, herror, -⟩
      · have hschema := (Except.ok.inj (hok.symm.trans h)).trans
          (Except.ok.inj (hok'.symm.trans h')).symm
        obtain rfl := (Schema.mk.inj hschema).2
        exact sameFields_of_describes hall hall'
      · cases herror.symm.trans h'
    · cases herror.symm.trans h

/-- Cellars by year, with twelve places for something or nothing. -/
def cellar (size : String) (kind : Kind) (converted : Bool) : Shape :=
  .map .int64 (.array { size, resolved := some 12 } (.ptr (.base ⟨kind, none, converted⟩)))

def cellars (places : Shape) : Table := .ofList [("Estate", .struct { name := "Estate" } [
  .mk { name := "cellars" } places])]

/-- How the size was declared, and whether the places are converted, does not show in the schema;
the kind of the places does. -/
theorem cellar_types :
    SameStructure (cellar "12" .uint8 false) (cellar "Places" .uint8 true) ∧
    (cellar "12" .uint8 false).typeName ≠ (cellar "12" .uint false).typeName ∧
    List.Forall₂ (fun e e' => SameFields e.2 e'.2)
      (cellars (cellar "12" .uint8 false)).entries
      (cellars (cellar "Places" .uint8 true)).entries := by
  obtain ⟨htype, -, htable⟩ := typeName_tells_structure
  have hspelled (size : String) (kind : Kind) (converted : Bool) :
      (cellar size kind converted).IsSpelled := ⟨trivial, rfl, trivial, rfl⟩
  refine ⟨(htype _ _ (hspelled _ _ _) (hspelled _ _ _)).1 rfl, fun h => ?_,
    htable (cellars _) (cellars _) _ rfl rfl⟩
  cases (htype _ _ (hspelled _ _ _) (hspelled _ _ _)).1 h with
  | map h =>
    cases h with
    | array _ _ h =>
      cases h with
      | ptr h =>
        cases h with
        | base kind => cases kind

end Schema

end Packwright
