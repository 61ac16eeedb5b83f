import Packwright.Proofs.PassOrder

/-
  What finalization computes. The passes of a pipeline come to one edit of the identities that all
  of them let through (`finalize_eq`), so the result is read off what that edit records at a single
  node: an edit can be made in a shape exactly if each of its arrays allows it (`isSome_edit?`), and
  where it is made the shape keeps everything else (`derives_of_edit?`).

  `Derives d s r` writes out the result for every form of shape, with all the data a node carries.
  `finalize_derives`: the standard pipeline drops an identity that is to be ignored, has an array
  without a size or is a delegated scalar, and no other; what it keeps is derived from its
  declaration alone, whatever the data to be derived said before.
-/

namespace Packwright

/-! ## Declared sizes -/

namespace Decimal

/-- A text is a numeral of a 64-bit count: perhaps a plus sign, then one or more digits. -/
def IsCount (text : String) (n : Nat) : Prop :=
  ∃ ds : List Char, ds ≠ [] ∧ (∀ c ∈ ds, isDigit c = true) ∧
    (text.toList = ds ∨ text.toList = '+' :: ds) ∧ value ds = n ∧ n < UInt64.size

/-- The count that a list of digits denotes. -/
def digitCount? (ds : List Char) : Option Nat :=
  if ds.isEmpty || !ds.all isDigit then none
  else if value ds < UInt64.size then some (value ds) else none

theorem digitCount?_eq_some_iff {ds : List Char} {n : Nat} :
    digitCount? ds = some n ↔
      ds ≠ [] ∧ (∀ c ∈ ds, isDigit c = true) ∧ value ds = n ∧ n < UInt64.size := by
  have hguard : (ds.isEmpty || !ds.all isDigit) = true ↔
      ¬(ds ≠ [] ∧ ∀ c ∈ ds, isDigit c = true) := by
    rw [Bool.or_eq_true, List.isEmpty_iff, Bool.not_eq_true', ← Bool.not_eq_true,
      List.all_eq_true, not_and_or, not_ne_iff]
  unfold digitCount?
  split
  · rename_i hbad
    refine ⟨fun h => (nomatch h), fun h => ?_⟩
    exact absurd ⟨h.1, h.2.1⟩ (hguard.1 hbad)
  · rename_i hgood
    obtain ⟨hne, hdigits⟩ := not_not.1 (mt hguard.2 hgood)
    split
    · rename_i hlt
      constructor
      · intro h
        obtain rfl := Option.some.inj h
        exact ⟨hne, hdigits, rfl, hlt⟩
      · intro h
        exact congrArg some h.2.2.1
    · rename_i hlarge
      refine ⟨fun h => (nomatch h), fun h => ?_⟩
      have := h.2.2.2
      omega

theorem count?_plus {text : String} {ds : List Char} (h : text.toList = '+' :: ds) :
    count? text = digitCount? ds := by
  unfold count? digitCount?
  rw [h]
  rfl

theorem count?_plain {text : String} (h : ∀ ds, text.toList ≠ '+' :: ds) :
    count? text = digitCount? text.toList := by
  unfold count? digitCount?
  dsimp only
  split
  · rename_i ds heq
    exact absurd heq (h ds)
  · rfl

theorem count?_eq_some_iff {text : String} {n : Nat} : count? text = some n ↔ IsCount text n := by
  by_cases hplus : ∃ ds, text.toList = '+' :: ds
  · obtain ⟨ds, hds⟩ := hplus
    rw [count?_plus hds, digitCount?_eq_some_iff]
    constructor
    · rintro ⟨hne, hdigits, hvalue⟩
      exact ⟨ds, hne, hdigits, .inr hds, hvalue⟩
    · rintro ⟨ds', hne, hdigits, hplain | hplus, hvalue⟩
      · -- the sign is no digit
        have hsign : isDigit '+' = true := hdigits '+' (by simp [← hplain, hds])
        exact absurd hsign (by decide)
      · obtain rfl : ds = ds' := (List.cons.inj (hds.symm.trans hplus)).2
        exact ⟨hne, hdigits, hvalue⟩
  · rw [count?_plain (not_exists.1 hplus), digitCount?_eq_some_iff]
    constructor
    · rintro ⟨hne, hdigits, hvalue⟩
      exact ⟨text.toList, hne, hdigits, .inl rfl, hvalue⟩
    · rintro ⟨ds, hne, hdigits, hplain | hsigned, hvalue⟩
      · rw [hplain]
        exact ⟨hne, hdigits, hvalue⟩
      · exact absurd ⟨ds, hsigned⟩ hplus

end Decimal

theorem Assoc.isSome_get?_iff {α : Type} {entries : List (String × α)} {name : String} :
    (get? entries name).isSome ↔ name ∈ names entries := by
  induction entries with
  | nil => simp [get?]
  | cons e rest ih =>
    by_cases h : e.1 = name
    · simp [get?, h]
    · simp [get?, h, ih, Ne.symm h]

/-- The number that a declared size stands for, without the white space around it: a numeral
stands for its value, and any other text for the value of the constant with that name. -/
inductive SizeIs (constants : List (String × Nat)) (size : String) : Nat → Prop where
  | numeral {n : Nat} (h : Decimal.IsCount (Blank.trim size) n) : SizeIs constants size n
  | constant {n : Nat} (word : ∀ m, ¬Decimal.IsCount (Blank.trim size) m)
      (h : Assoc.get? constants (Blank.trim size) = some n) : SizeIs constants size n

theorem sizeIs_of_resolveSize? {constants : List (String × Nat)} {size : String} {n : Nat}
    (h : resolveSize? constants size = some n) : SizeIs constants size n := by
  unfold resolveSize? at h
  cases hcount : Decimal.count? (Blank.trim size) with
  | some m =>
    simp only [hcount, Option.some.injEq] at h
    exact .numeral (Decimal.count?_eq_some_iff.1 (h ▸ hcount))
  | none =>
    simp only [hcount] at h
    refine .constant (fun m hm => ?_) h
    rw [Decimal.count?_eq_some_iff.2 hm] at hcount
    cases hcount

theorem isSome_resolveSize? {constants : List (String × Nat)} {size : String} :
    (resolveSize? constants size).isSome ↔
      (∃ n, Decimal.IsCount (Blank.trim size) n) ∨
        Blank.trim size ∈ Assoc.names constants := by
  simp only [← Decimal.count?_eq_some_iff, ← Assoc.isSome_get?_iff]
  unfold resolveSize?
  cases hcount : Decimal.count? (Blank.trim size) with
  | some n => simp [hcount]
  | none => simp [hcount]

/-! ## One edit -/

namespace Edit

/-- The data of a node is such that an edit can be made. -/
def Allows (e : Edit) : Shape → Prop
  | .array info _ => (e.array info).isSome
  | _ => True

/-- Takes back what finalization records. -/
def forget : Edit where
  struct info _ := { info with skipCount := 0, hasOmitEmptyTags := false }
  array info := some { info with resolved := none }

end Edit

namespace Shape

theorem isSome_editFields? {e : Edit} {fields : List Field} :
    (editFields? e fields).isSome ↔ ∀ f ∈ fields, (f.value.edit? e).isSome := by
  induction fields with
  | nil => exact ⟨fun _ => List.forall_mem_nil _, fun _ => rfl⟩
  | cons f rest ih =>
    rw [editFields?_cons, List.forall_mem_cons, ← ih]
    cases f.value.edit? e <;> simp

/-- An edit can be made in a shape if it can be made at each of its nodes. -/
theorem isSome_edit? {e : Edit} {s : Shape} : (s.edit? e).isSome ↔ s.Everywhere e.Allows := by
  induction s with
  | struct info fields ih =>
    rw [edit?_struct, Option.isSome_map, isSome_editFields?, Everywhere, everywhereIn_iff,
      and_iff_right (show e.Allows (struct info fields) from trivial)]
    exact forall₂_congr ih
  | map key value ih =>
    rw [edit?_map, Option.isSome_map, ih, Everywhere]
    exact (and_iff_right trivial).symm
  | slice element ih =>
    rw [edit?_slice, Option.isSome_map, ih, Everywhere]
    exact (and_iff_right trivial).symm
  | array info element ih =>
    rw [edit?_array, Everywhere, ← ih, Edit.Allows]
    cases e.array info <;> simp
  | ptr pointee ih =>
    rw [edit?_ptr, Option.isSome_map, ih, Everywhere]
    exact (and_iff_right trivial).symm
  | base info =>
    rw [edit?_base, Everywhere]
    exact ⟨fun _ => trivial, fun _ => rfl⟩

theorem edit?_of_mem_zip {e : Edit} {fields edited : List Field}
    (h : editFields? e fields = some edited) {x : Field × Field} (hx : x ∈ fields.zip edited) :
    x.1.value.edit? e = some x.2.value := by
  induction fields generalizing edited with
  | nil => simp at hx
  | cons f rest ih =>
    rw [editFields?_cons] at h
    obtain ⟨value, hvalue, h⟩ := Option.bind_eq_some_iff.1 h
    obtain ⟨others, hothers, rfl⟩ := Option.map_eq_some_iff.1 h
    rw [List.zip_cons_cons, List.mem_cons] at hx
    rcases hx with rfl | hx
    · exact hvalue
    · exact ih hothers hx

/-- A node without what finalization records. -/
def forgetNode : Shape → Shape
  | struct info fields => struct { info with skipCount := 0, hasOmitEmptyTags := false } fields
  | array info element => array { info with resolved := none } element
  | s => s

/-- A shape as it was declared, without what finalization records at any of its nodes. -/
def declared (s : Shape) : Shape := s.mapNodes forgetNode

theorem edit?_forget (s : Shape) : s.edit? .forget = some s.declared := by
  refine (mapNodes_eq_edit? (fun node => ?_) s).symm
  cases node <;> rfl

end Shape

namespace Pipeline

/-- What the passes of a pipeline record, one after another. -/
def edit (p : Pipeline) : Edit := p.foldr (fun x e => x.edit.andThen e) .keep

/-- A pipeline makes one edit in the identities that all of its passes let through. -/
theorem finalize_eq (p : Pipeline) (identity : String) (s : Shape) :
    p.finalize identity s =
      if p.all fun x => x.admits identity s then s.edit? p.edit else none := by
  induction p generalizing s with
  | nil => exact (Shape.edit?_keep s).symm
  | cons x rest ih =>
    rw [finalize_cons, Pass.apply_eq, List.all_cons]
    cases x.admits identity s with
    | false => rfl
    | true =>
      rw [if_pos rfl, Bool.true_and, show edit (x :: rest) = x.edit.andThen (edit rest) from rfl,
        ← Shape.edit?_andThen]
      cases hr : s.edit? x.edit with
      | none => simp
      | some r =>
        have hadmits : ∀ y : Pass, y.admits identity r = y.admits identity s :=
          fun y => Pass.admits_of_edit? hr
        rw [Option.bind_some, Option.bind_some, ih]
        simp only [hadmits]

end Pipeline

/-! ## The standard pipeline -/

/-- What the passes of the standard pipeline record at a struct and at an array. -/
def Directives.edit (d : Directives) : Edit where
  struct info fields :=
    { name := info.name
      asTuple := info.asTuple || d.tuple.contains info.name
      keyKind := info.keyKind
      skipCount := fields.countP FieldInfo.skip
      hasOmitEmptyTags := fields.any fun f => !f.skip && f.omitEmpty }
  array info :=
    (resolveSize? d.constants info.size).map fun n => { size := info.size, resolved := some n }

theorem Directives.edit_array (d : Directives) (info : ArrayInfo) :
    d.edit.array info = (resolveSize? d.constants info.size).map fun n =>
      { size := info.size, resolved := some n } := by
  rw [edit]

theorem Directives.forget_andThen (d : Directives) : Edit.forget.andThen d.edit = d.edit := by
  refine Edit.ext rfl (funext fun info => ?_)
  simp only [Edit.andThen, Edit.forget, Option.bind_some, edit_array]

namespace Shape

/-- The declared size of an array is a numeral or the name of a constant, apart from the white
space around it. -/
def IsSizable (constants : List (String × Nat)) : Shape → Prop
  | array info _ =>
    (∃ n, Decimal.IsCount (Blank.trim info.size) n) ∨
      Blank.trim info.size ∈ Assoc.names constants
  | _ => True

theorem allows_edit_iff {d : Directives} {s : Shape} :
    d.edit.Allows s ↔ s.IsSizable d.constants := by
  cases s with
  | array info element =>
    rw [Edit.Allows, d.edit_array, Option.isSome_map]
    exact isSome_resolveSize?
  | _ => exact Iff.rfl

theorem isPrintable_eq_false_iff {s : Shape} :
    s.isPrintable = false ↔ ∃ info, s = base info ∧ info.kind.isDelegated = true := by
  cases s with
  | base info => simp [isPrintable]
  | _ => simp [isPrintable]

end Shape

/-- The second shape is the first one with the data that finalization derives. A struct counts its
skipped fields, tells whether a live one is tagged, and is a tuple if it was one or is listed; an
array has the number that its declared size stands for. Everything else is as in the first. -/
inductive Derives (d : Directives) : Shape → Shape → Prop where
  | struct {info : StructInfo} {fields fields' : List Field}
      (same : fields'.map Field.info = fields.map Field.info)
      (below : ∀ x ∈ fields.zip fields', Derives d x.1.value x.2.value) :
      Derives d (.struct info fields)
        (.struct
          { name := info.name
            asTuple := info.asTuple || d.tuple.contains info.name
            keyKind := info.keyKind
            skipCount := fields.countP fun f => f.info.skip
            hasOmitEmptyTags := fields.any fun f => !f.info.skip && f.info.omitEmpty }
          fields')
  | map {key : KeyKind} {value value' : Shape} (below : Derives d value value') :
      Derives d (.map key value) (.map key value')
  | slice {element element' : Shape} (below : Derives d element element') :
      Derives d (.slice element) (.slice element')
  | array {info : ArrayInfo} {n : Nat} {element element' : Shape}
      (size : SizeIs d.constants info.size n) (below : Derives d element element') :
      Derives d (.array info element) (.array { size := info.size, resolved := some n } element')
  | ptr {pointee pointee' : Shape} (below : Derives d pointee pointee') :
      Derives d (.ptr pointee) (.ptr pointee')
  | base {info : BaseInfo} : Derives d (.base info) (.base info)

theorem Shape.derives_of_edit? {d : Directives} {s r : Shape} (h : s.edit? d.edit = some r) :
    Derives d s r := by
  induction s generalizing r with
  | struct info fields ih =>
    rw [edit?_struct] at h
    obtain ⟨fields', hfields, rfl⟩ := Option.map_eq_some_iff.1 h
    unfold Directives.edit
    dsimp only
    rw [List.countP_map, List.any_map]
    refine .struct (infos_editFields? hfields) fun x hx => ?_
    exact ih x.1 (List.of_mem_zip hx).1 (edit?_of_mem_zip hfields hx)
  | map key value ih =>
    rw [edit?_map] at h
    obtain ⟨value', hvalue, rfl⟩ := Option.map_eq_some_iff.1 h
    exact .map (ih hvalue)
  | slice element ih =>
    rw [edit?_slice] at h
    obtain ⟨element', helement, rfl⟩ := Option.map_eq_some_iff.1 h
    exact .slice (ih helement)
  | array info element ih =>
    rw [edit?_array, d.edit_array] at h
    obtain ⟨info', hinfo, h⟩ := Option.bind_eq_some_iff.1 h
    obtain ⟨element', helement, rfl⟩ := Option.map_eq_some_iff.1 h
    obtain ⟨n, hn, rfl⟩ := Option.map_eq_some_iff.1 hinfo
    exact .array (sizeIs_of_resolveSize? hn) (ih helement)
  | ptr pointee ih =>
    rw [edit?_ptr] at h
    obtain ⟨pointee', hpointee, rfl⟩ := Option.map_eq_some_iff.1 h
    exact .ptr (ih hpointee)
  | base info =>
    rw [edit?_base] at h
    obtain rfl := Option.some.inj h
    exact .base

namespace Pipeline

theorem edit_standard (d : Directives) : edit (standard d) = d.edit := by
  refine Edit.ext (funext fun info => funext fun fields => ?_) (funext fun info => ?_)
  · simp only [edit, standard, resolving, List.cons_append, List.nil_append, List.foldr_cons,
      List.foldr_nil, Edit.andThen, Edit.keep, Pass.edit, Directives.edit]
    by_cases hlisted : info.name ∈ d.tuple
    · simp [hlisted]
    · simp [hlisted]
  · simp [edit, standard, resolving, Edit.andThen, Pass.edit, Edit.keep, Directives.edit]

theorem finalize_standard (d : Directives) (identity : String) (s : Shape) :
    (standard d).finalize identity s =
      if !d.ignore.contains identity && s.isPrintable then s.edit? d.edit else none := by
  rw [finalize_eq, edit_standard]
  simp [standard, resolving, Pass.admits]

theorem finalize_declared (d : Directives) (identity : String) (s : Shape) :
    (standard d).finalize identity s.declared = (standard d).finalize identity s := by
  have hdeclared := s.edit?_forget
  have hedit : s.declared.edit? d.edit = s.edit? d.edit :=
    calc s.declared.edit? d.edit
        = (s.edit? .forget).bind (Shape.edit? d.edit) := by rw [hdeclared]; rfl
      _ = s.edit? (Edit.forget.andThen d.edit) := Shape.edit?_andThen _ _ s
      _ = s.edit? d.edit := by rw [d.forget_andThen]
  rw [finalize_standard, finalize_standard, Shape.isPrintable_of_edit? hdeclared, hedit]

/-- The standard pipeline drops an identity exactly if its name is to be ignored, some array of its
shape has no size, or its whole shape is a scalar that is delegated. Otherwise the result is the
shape with the derived data, and the same for all shapes with the same declaration, whatever they
recorded before. -/
theorem finalize_derives (d : Directives) (identity : String) (s : Shape) :
    ((standard d).finalize identity s = none ↔
      identity ∈ d.ignore ∨ ¬s.Everywhere (Shape.IsSizable d.constants) ∨
        ∃ info, s = .base info ∧ info.kind.isDelegated = true) ∧
      (∀ r, (standard d).finalize identity s = some r → Derives d s r) ∧
      ∀ s', s'.declared = s.declared →
        (standard d).finalize identity s' = (standard d).finalize identity s := by
  have hsizable : s.edit? d.edit = none ↔ ¬s.Everywhere (Shape.IsSizable d.constants) := by
    rw [← Option.not_isSome_iff_eq_none, Shape.isSome_edit?,
      show d.edit.Allows = Shape.IsSizable d.constants from
        funext fun node => propext Shape.allows_edit_iff]
  refine ⟨?_, fun r h => ?_, fun s' h => ?_⟩
  · rw [finalize_standard, ← hsizable, ← Shape.isPrintable_eq_false_iff, ← List.contains_iff_mem]
    cases d.ignore.contains identity <;> cases s.isPrintable <;> simp
  · rw [finalize_standard] at h
    exact Shape.derives_of_edit? (Option.ite_none_right_eq_some.1 h).2
  · rw [← finalize_declared, h, finalize_declared]

def crateDirectives : Directives :=
  { ignore := ["Draft"], tuple := ["Slot"], constants := [("ROWS", 4)] }

/-- A struct behind a skipped field, with what finalization records left open. -/
def crate (tuple tagged : Bool) (skips : Nat) (rows columns : Option Nat) : Shape :=
  .struct { name := "Crate", keyKind := .int64, skipCount := skips, hasOmitEmptyTags := tagged } [
    .mk { name := "scratch", omitEmpty := true, skip := true }
      (.ptr (.array ⟨" ROWS\n", rows⟩
        (.struct { name := "Slot", asTuple := tuple } [
          .mk { zid := 0, name := "weights" }
            (.map .string (.array ⟨"+07", columns⟩ (.ofKind .float64)))]))),
    .mk { zid := 2, name := "label" } (.slice (.ident "Label"))]

theorem finalize_crate :
    (crate false true 9 (some 5) none).declared = (crate false false 0 none none).declared ∧
      (standard crateDirectives).finalize "Crate" (crate false true 9 (some 5) none) =
        some (crate true false 1 (some 4) (some 7)) ∧
      Derives crateDirectives (crate false false 0 none none)
        (crate true false 1 (some 4) (some 7)) ∧
      (standard crateDirectives).finalize "Draft" (crate false false 0 none none) = none ∧
      (standard crateDirectives).finalize "Alias" (.ident "Crate") = none ∧
      (standard {}).finalize "Crate" (crate false false 0 none none) = none := by
  have hcrate := finalize_derives crateDirectives "Crate" (crate false false 0 none none)
  have hsame : (crate false true 9 (some 5) none).declared =
      (crate false false 0 none none).declared := rfl
  have hresult : (standard crateDirectives).finalize "Crate" (crate false false 0 none none) =
      some (crate true false 1 (some 4) (some 7)) := rfl
  refine ⟨hsame, (hcrate.2.2 _ hsame).trans hresult, hcrate.2.1 _ hresult, ?_, ?_, ?_⟩
  · exact (finalize_derives _ _ _).1.2 (.inl (by decide))
  · exact (finalize_derives _ _ _).1.2 (.inr (.inr ⟨_, rfl, rfl⟩))
  · refine (finalize_derives _ _ _).1.2 (.inr (.inl fun hsized => ?_))
    have hrows : Shape.IsSizable [] (.array ⟨" ROWS\n", none⟩ _) :=
      (hsized.field List.mem_cons_self).2.here
    rcases hrows with ⟨n, hn⟩ | hmem
    · have hword : Decimal.count? (Blank.trim " ROWS\n") = none := rfl
      rw [← Decimal.count?_eq_some_iff, hword] at hn
      cases hn
    · exact List.not_mem_nil hmem

end Pipeline

end Packwright
