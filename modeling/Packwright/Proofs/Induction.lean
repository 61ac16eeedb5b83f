import Packwright.Assoc
import Packwright.Shape
import Packwright.Value

/-
  Induction over the nested trees. Shapes hold lists of fields, so their own recursor speaks of
  the lists as well; the principle here gives the hypothesis for every member of a list instead.
  `Everywhere P s` says that `P` holds at every node of `s`, skipped fields included. Recursion
  into values is by their height, which is larger than that of every member.
-/

namespace Packwright

namespace Shape

/-- Induction over shapes, with one hypothesis for all fields of a struct. -/
@[elab_as_elim, induction_eliminator]
theorem inductionOn {motive : Shape → Prop}
    (struct : ∀ info fields, (∀ f ∈ fields, motive f.value) → motive (.struct info fields))
    (map : ∀ key value, motive value → motive (.map key value))
    (slice : ∀ element, motive element → motive (.slice element))
    (array : ∀ info element, motive element → motive (.array info element))
    (ptr : ∀ pointee, motive pointee → motive (.ptr pointee))
    (base : ∀ info, motive (.base info)) (s : Shape) : motive s :=
  @Shape.rec motive (fun f => motive f.value) (fun fields => ∀ f ∈ fields, motive f.value)
    struct map slice array ptr base (fun _ _ h => h)
    (fun _ hf => absurd hf List.not_mem_nil)
    (fun _ _ h hs f hf => (List.mem_cons.1 hf).elim (fun e => e ▸ h) (hs f)) s

mutual

/-- A property holds at every node. -/
def Everywhere (P : Shape → Prop) : Shape → Prop
  | struct info fields => P (struct info fields) ∧ EverywhereIn P fields
  | map key value => P (map key value) ∧ Everywhere P value
  | slice element => P (slice element) ∧ Everywhere P element
  | array info element => P (array info element) ∧ Everywhere P element
  | ptr pointee => P (ptr pointee) ∧ Everywhere P pointee
  | base info => P (base info)

/-- A property holds at every node of the shapes of fields. -/
def EverywhereIn (P : Shape → Prop) : List Field → Prop
  | [] => True
  | .mk _ value :: rest => Everywhere P value ∧ EverywhereIn P rest

end

theorem everywhereIn_iff {P : Shape → Prop} {fields : List Field} :
    EverywhereIn P fields ↔ ∀ f ∈ fields, Everywhere P f.value := by
  induction fields with
  | nil => simp [EverywhereIn]
  | cons f rest ih =>
    obtain ⟨info, value⟩ := f
    simp [EverywhereIn, ih]

theorem Everywhere.here {P : Shape → Prop} {s : Shape} (h : Everywhere P s) : P s := by
  cases s with
  | base info => exact h
  | _ => exact h.1

theorem Everywhere.field {P : Shape → Prop} {info : StructInfo} {fields : List Field}
    (h : Everywhere P (struct info fields)) {f : Field} (hf : f ∈ fields) :
    Everywhere P f.value :=
  everywhereIn_iff.1 h.2 f hf

theorem struct_or (s : Shape) :
    (∃ info fields, s = struct info fields) ∨ ∀ info fields, s ≠ struct info fields := by
  cases s with
  | struct info fields => exact .inl ⟨info, fields, rfl⟩
  | _ => exact .inr fun _ _ h => nomatch h

theorem height_pos (s : Shape) : 0 < s.height := by
  cases s <;> simp [height]

theorem height_le_heights {f : Field} {fields : List Field} (hf : f ∈ fields) :
    f.value.height ≤ heights fields := by
  induction fields with
  | nil => simp at hf
  | cons g rest ih =>
    obtain ⟨info, value⟩ := g
    rcases List.mem_cons.1 hf with rfl | hf
    · simp only [heights, Field.value_mk]; omega
    · have := ih hf
      simp only [heights]; omega

end Shape

namespace Value

theorem height_le_heights {v : Value} {items : List Value} (hv : v ∈ items) :
    v.height ≤ heights items := by
  induction items with
  | nil => simp at hv
  | cons w rest ih =>
    rcases List.mem_cons.1 hv with rfl | hv
    · simp only [heights]; omega
    · have := ih hv
      simp only [heights]; omega

theorem height_le_entryHeights {e : Value × Value} {entries : List (Value × Value)}
    (he : e ∈ entries) : e.1.height ≤ entryHeights entries ∧ e.2.height ≤ entryHeights entries := by
  induction entries with
  | nil => simp at he
  | cons g rest ih =>
    obtain ⟨k, w⟩ := g
    rcases List.mem_cons.1 he with rfl | he
    · simp only [entryHeights]; omega
    · have := ih he
      simp only [entryHeights]; omega

theorem height_le_fieldHeights {e : String × Value} {fields : List (String × Value)}
    (he : e ∈ fields) : e.2.height ≤ fieldHeights fields := by
  induction fields with
  | nil => simp at he
  | cons g rest ih =>
    obtain ⟨k, w⟩ := g
    rcases List.mem_cons.1 he with rfl | he
    · simp only [fieldHeights]; omega
    · have := ih he
      simp only [fieldHeights]; omega

end Value

end Packwright
