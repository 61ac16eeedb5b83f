import Packwright.Pass
import Packwright.Proofs.Induction

/-
  What finalization establishes. The two traversals of the passes are opened first: `mapNodes_eq`
  and `mapNodes?_eq` say what they do to one node in terms of what they do to its children, so
  that nothing else has to look at the visitor. `isFinal_of_finalize`: a shape that the standard
  pipeline keeps is final at every node, skipped fields included, and is printable; `Table.IsFinal`
  says so of all identities of a table.
-/

namespace Packwright

namespace Field

/-- A field with its shape changed. -/
def mapValue (g : Shape → Shape) (f : Field) : Field := mk f.info (g f.value)

@[simp] theorem info_mapValue (g : Shape → Shape) (f : Field) : (f.mapValue g).info = f.info := rfl

@[simp] theorem value_mapValue (g : Shape → Shape) (f : Field) :
    (f.mapValue g).value = g f.value := rfl

theorem withValues_map (g : Shape → Shape) (fields : List Field) :
    withValues fields (fields.map fun f => g f.value) = fields.map (mapValue g) := by
  induction fields with
  | nil => rfl
  | cons f rest ih => simp [withValues, ih, mapValue]

end Field

namespace Shape

/-- The visitor that changes every node and never stops. -/
def editing (f : Shape → Shape) (node : Shape) : StateM Unit (Shape × Bool) :=
  pure (f node, true)

theorem mapNodes_of_visit {f : Shape → Shape} {s r : Shape}
    (h : visit (editing f) s = pure (r, true)) : s.mapNodes f = r := by
  show (Id.run ((visit (editing f) s).run ())).1.1 = r
  rw [h]
  rfl

theorem visitNode_editing (f : Shape → Shape) (node : Shape) (below : List Shape) :
    visitNode (editing f) node (pure (below, true)) = pure ((f node).withChildren below, true) := by
  simp [visitNode, editing]

theorem visitFields_editing {f : Shape → Shape} {fields : List Field}
    (h : ∀ g ∈ fields, visit (editing f) g.value = pure (g.value.mapNodes f, true)) :
    visitFields (editing f) fields = pure (fields.map fun g => g.value.mapNodes f, true) := by
  induction fields with
  | nil => rfl
  | cons g rest ih =>
    obtain ⟨info, value⟩ := g
    have hv : visit (editing f) value = pure (value.mapNodes f, true) := h _ List.mem_cons_self
    have hr := ih fun g hg => h g (List.mem_cons_of_mem _ hg)
    simp [visitFields, hv, hr]

theorem visit_editing (f : Shape → Shape) (s : Shape) :
    visit (editing f) s = pure (s.mapNodes f, true) := by
  suffices h : ∃ r, visit (editing f) s = pure (r, true) by
    obtain ⟨r, hr⟩ := h
    rw [hr, mapNodes_of_visit hr]
  induction s with
  | struct info fields ih =>
    have hf : ∀ g ∈ fields, visit (editing f) g.value = pure (g.value.mapNodes f, true) := by
      intro g hg
      obtain ⟨r, hr⟩ := ih g hg
      rw [hr, mapNodes_of_visit hr]
    exact ⟨_, by rw [visit, visitFields_editing hf, visitNode_editing]⟩
  | map key value ih =>
    obtain ⟨r, hr⟩ := ih
    exact ⟨_, by rw [visit, hr]; exact visitNode_editing f _ [r]⟩
  | slice element ih =>
    obtain ⟨r, hr⟩ := ih
    exact ⟨_, by rw [visit, hr]; exact visitNode_editing f _ [r]⟩
  | array info element ih =>
    obtain ⟨r, hr⟩ := ih
    exact ⟨_, by rw [visit, hr]; exact visitNode_editing f _ [r]⟩
  | ptr pointee ih =>
    obtain ⟨r, hr⟩ := ih
    exact ⟨_, by rw [visit, hr]; exact visitNode_editing f _ [r]⟩
  | base info => exact ⟨_, visitNode_editing f (base info) []⟩

/-- Every node is changed, and the children it keeps are the changed ones. -/
theorem mapNodes_eq (f : Shape → Shape) (s : Shape) :
    s.mapNodes f = (f s).withChildren (s.children.map (mapNodes f)) := by
  apply mapNodes_of_visit
  cases s with
  | struct info fields =>
    rw [visit, visitFields_editing fun g _ => visit_editing f g.value, visitNode_editing]
    rw [children, List.map_map]
    rfl
  | base info => exact visitNode_editing f (base info) []
  | map key value => rw [visit, visit_editing]; exact visitNode_editing f _ [_]
  | slice element => rw [visit, visit_editing]; exact visitNode_editing f _ [_]
  | array info element => rw [visit, visit_editing]; exact visitNode_editing f _ [_]
  | ptr pointee => rw [visit, visit_editing]; exact visitNode_editing f _ [_]


/-- The visitor that changes nodes until one cannot be changed. -/
def trying (f : Shape → Option Shape) (node : Shape) : StateM Unit (Shape × Bool) :=
  match f node with
  | some changed => pure (changed, true)
  | none => pure (node, false)

/-- What a visit returns: the changed value, or anything at all with the flag unset. -/
def Outcome {α : Type} (r : Option α) (visited : StateM Unit (α × Bool)) : Prop :=
  match r with
  | some a => visited = pure (a, true)
  | none => ∃ a, visited = pure (a, false)

theorem mapNodes?_of_outcome {f : Shape → Option Shape} {s : Shape} {r : Option Shape}
    (h : Outcome r (visit (trying f) s)) : s.mapNodes? f = r := by
  have hrun (x : Shape × Bool) (h : visit (trying f) s = pure x) :
      (Id.run ((visit (trying f) s).run ())).1 = x := by
    rw [h]
    rfl
  unfold mapNodes?
  dsimp only
  cases r with
  | some a =>
    have hrun := hrun _ h
    split
    · rename_i heq
      exact congrArg some (Prod.mk.inj (heq.symm.trans hrun)).1
    · rename_i heq
      cases heq.symm.trans hrun
  | none =>
    obtain ⟨a, h⟩ := h
    have hrun := hrun _ h
    split
    · rename_i heq
      cases heq.symm.trans hrun
    · rfl

theorem outcome_visitNode {f : Shape → Option Shape} {node : Shape} {r : Option (List Shape)}
    {below : StateM Unit (List Shape × Bool)} (h : Outcome r below) :
    Outcome (do return (← f node).withChildren (← r)) (visitNode (trying f) node below) := by
  cases hf : f node with
  | none => exact ⟨_, by simp [visitNode, trying, hf]; rfl⟩
  | some own =>
    cases r with
    | none =>
      obtain ⟨a, h⟩ := h
      exact ⟨_, by simp [visitNode, trying, hf, h]; rfl⟩
    | some a =>
      have h : below = pure (a, true) := h
      show visitNode (trying f) node below = pure (own.withChildren a, true)
      simp [visitNode, trying, hf, h]

theorem outcome_one {f : Shape → Option Shape} {child : Shape}
    (h : Outcome (child.mapNodes? f) (visit (trying f) child)) :
    Outcome ([child].mapM (mapNodes? f)) (do
      let (child, completed) ← visit (trying f) child
      return ([child], completed)) := by
  cases hr : child.mapNodes? f with
  | none =>
    rw [hr] at h
    obtain ⟨a, h⟩ := h
    simp only [List.mapM_cons, hr, h]
    exact ⟨_, rfl⟩
  | some a =>
    rw [hr] at h
    have h : visit (trying f) child = pure (a, true) := h
    simp only [List.mapM_cons, hr, h]
    rfl

theorem outcome_visitFields {f : Shape → Option Shape} {fields : List Field}
    (h : ∀ g ∈ fields, Outcome (g.value.mapNodes? f) (visit (trying f) g.value)) :
    Outcome ((fields.map Field.value).mapM (mapNodes? f)) (visitFields (trying f) fields) := by
  induction fields with
  | nil => rfl
  | cons g rest ih =>
    obtain ⟨info, value⟩ := g
    have hv : Outcome (value.mapNodes? f) (visit (trying f) value) := h _ List.mem_cons_self
    have hr := ih fun g hg => h g (List.mem_cons_of_mem _ hg)
    rw [visitFields, List.map_cons, List.mapM_cons, Field.value_mk]
    cases ha : value.mapNodes? f with
    | none =>
      rw [ha] at hv
      obtain ⟨a, hv⟩ := hv
      rw [hv]
      exact ⟨_, rfl⟩
    | some a =>
      rw [ha] at hv
      have hv : visit (trying f) value = pure (a, true) := hv
      rw [hv]
      cases hb : (rest.map Field.value).mapM (mapNodes? f) with
      | none =>
        rw [hb] at hr
        obtain ⟨b, hr⟩ := hr
        exact ⟨_, by simp [hr]; rfl⟩
      | some b =>
        rw [hb] at hr
        have hr : visitFields (trying f) rest = pure (b, true) := hr
        show _ = _
        simp [hr]

theorem outcome_visit (f : Shape → Option Shape) (s : Shape) :
    Outcome (s.mapNodes? f) (visit (trying f) s) := by
  suffices h : ∃ r, Outcome r (visit (trying f) s) by
    obtain ⟨r, hr⟩ := h
    rwa [mapNodes?_of_outcome hr]
  have one : ∀ child, (∃ r, Outcome r (visit (trying f) child)) →
      Outcome (child.mapNodes? f) (visit (trying f) child) := by
    intro child ⟨r, hr⟩
    rwa [mapNodes?_of_outcome hr]
  induction s with
  | struct info fields ih =>
    exact ⟨_, outcome_visitNode (outcome_visitFields fun g hg => one _ (ih g hg))⟩
  | map key value ih => exact ⟨_, outcome_visitNode (outcome_one (one _ ih))⟩
  | slice element ih => exact ⟨_, outcome_visitNode (outcome_one (one _ ih))⟩
  | array info element ih => exact ⟨_, outcome_visitNode (outcome_one (one _ ih))⟩
  | ptr pointee ih => exact ⟨_, outcome_visitNode (outcome_one (one _ ih))⟩
  | base info => exact ⟨_, outcome_visitNode (r := some []) rfl⟩

/-- Every node is changed, if each of them can be. -/
theorem mapNodes?_eq (f : Shape → Option Shape) (s : Shape) :
    s.mapNodes? f = (do return (← f s).withChildren (← s.children.mapM (mapNodes? f))) := by
  apply mapNodes?_of_outcome
  cases s with
  | struct info fields =>
    exact outcome_visitNode (outcome_visitFields fun g _ => outcome_visit f g.value)
  | map key value => exact outcome_visitNode (outcome_one (outcome_visit f value))
  | slice element => exact outcome_visitNode (outcome_one (outcome_visit f element))
  | array info element => exact outcome_visitNode (outcome_one (outcome_visit f element))
  | ptr pointee => exact outcome_visitNode (outcome_one (outcome_visit f pointee))
  | base info => exact outcome_visitNode (r := some []) rfl

/-- What finalization establishes at a node: a struct records how many of its fields are skipped
and whether a live one is tagged, and the size of an array is known. -/
def IsFinalNode : Shape → Prop
  | struct info fields =>
    info.skipCount = fields.countP (fun f => f.info.skip) ∧
      info.hasOmitEmptyTags = fields.any fun f => !f.info.skip && f.info.omitEmpty
  | array info _ => info.resolved.isSome
  | _ => True

/-- A finalized shape. -/
def IsFinal (s : Shape) : Prop := s.Everywhere IsFinalNode

/-- The size of an array is known. -/
def IsSizedNode : Shape → Prop
  | array info _ => info.resolved.isSome
  | _ => True

theorem mapNodes_computeMetadata_struct (info : StructInfo) (fields : List Field) :
    (struct info fields).mapNodes computeMetadata =
      struct { info with
        skipCount := fields.countP fun f => f.info.skip
        hasOmitEmptyTags := fields.any fun f => !f.info.skip && f.info.omitEmpty }
        (fields.map (Field.mapValue (mapNodes computeMetadata))) := by
  rw [mapNodes_eq, ← Field.withValues_map, children, List.map_map]
  rfl

theorem isFinal_mapNodes {s : Shape} (h : s.Everywhere IsSizedNode) :
    (s.mapNodes computeMetadata).IsFinal := by
  induction s with
  | struct info fields ih =>
    rw [mapNodes_computeMetadata_struct]
    refine ⟨⟨?_, ?_⟩, everywhereIn_iff.2 ?_⟩
    · rw [List.countP_map]; rfl
    · rw [List.any_map]; rfl
    · intro f hf
      obtain ⟨g, hg, rfl⟩ := List.mem_map.1 hf
      exact ih g hg (h.field hg)
  | map key value ih =>
    rw [mapNodes_eq]
    exact ⟨trivial, ih h.2⟩
  | slice element ih =>
    rw [mapNodes_eq]
    exact ⟨trivial, ih h.2⟩
  | array info element ih =>
    rw [mapNodes_eq]
    exact ⟨h.1, ih h.2⟩
  | ptr pointee ih =>
    rw [mapNodes_eq]
    exact ⟨trivial, ih h.2⟩
  | base info =>
    rw [mapNodes_eq]
    exact trivial

theorem mem_withValues {g : Shape → Option Shape} {fields : List Field} {below : List Shape}
    (h : (fields.map Field.value).mapM g = some below) {f : Field}
    (hf : f ∈ Field.withValues fields below) :
    ∃ f' ∈ fields, g f'.value = some f.value := by
  induction fields generalizing below with
  | nil => simp [Field.withValues] at hf
  | cons f₀ rest ih =>
    rw [List.map_cons, List.mapM_cons] at h
    simp only [Option.bind_eq_bind, Option.bind_eq_some_iff, Option.pure_def,
      Option.some.injEq] at h
    obtain ⟨b, hb, bs, hbs, rfl⟩ := h
    rw [Field.withValues, List.mem_cons] at hf
    rcases hf with rfl | hf
    · exact ⟨f₀, List.mem_cons_self, hb⟩
    · obtain ⟨f', hf', hg⟩ := ih hbs hf
      exact ⟨f', List.mem_cons_of_mem _ hf', hg⟩

theorem mapNodes?_eq_some {f : Shape → Option Shape} {s r : Shape} (h : s.mapNodes? f = some r) :
    ∃ own below, f s = some own ∧ s.children.mapM (mapNodes? f) = some below ∧
      r = own.withChildren below := by
  rw [mapNodes?_eq] at h
  simp only [Option.bind_eq_bind, Option.bind_eq_some_iff, Option.pure_def,
    Option.some.injEq] at h
  obtain ⟨own, hown, below, hbelow, rfl⟩ := h
  exact ⟨own, below, hown, hbelow, rfl⟩

theorem mapM_one {g : Shape → Option Shape} {child : Shape} {below : List Shape}
    (h : [child].mapM g = some below) : ∃ b, g child = some b ∧ below = [b] := by
  simp only [List.mapM_cons, List.mapM_nil, Option.bind_eq_bind, Option.bind_eq_some_iff,
    Option.pure_def, Option.bind_some, Option.some.injEq] at h
  obtain ⟨b, hb, rfl⟩ := h
  exact ⟨b, hb, rfl⟩

theorem everywhere_isSizedNode {constants : List (String × Nat)} {s r : Shape}
    (h : s.mapNodes? (resolveArray? constants) = some r) : r.Everywhere IsSizedNode := by
  induction s generalizing r with
  | struct info fields ih =>
    obtain ⟨_, below, hown, hb, rfl⟩ := mapNodes?_eq_some h
    obtain rfl := Option.some.inj hown
    refine ⟨trivial, everywhereIn_iff.2 fun f hf => ?_⟩
    obtain ⟨f', hf', hg⟩ := mem_withValues hb hf
    exact ih f' hf' hg
  | map key value ih =>
    obtain ⟨_, below, hown, hb, rfl⟩ := mapNodes?_eq_some h
    obtain ⟨v, hv, rfl⟩ := mapM_one hb
    obtain rfl := Option.some.inj hown
    exact ⟨trivial, ih hv⟩
  | slice element ih =>
    obtain ⟨_, below, hown, hb, rfl⟩ := mapNodes?_eq_some h
    obtain ⟨v, hv, rfl⟩ := mapM_one hb
    obtain rfl := Option.some.inj hown
    exact ⟨trivial, ih hv⟩
  | array info element ih =>
    obtain ⟨_, below, hown, hb, rfl⟩ := mapNodes?_eq_some h
    obtain ⟨v, hv, rfl⟩ := mapM_one hb
    simp only [resolveArray?, Option.bind_eq_bind, Option.bind_eq_some_iff, Option.pure_def,
      Option.some.injEq] at hown
    obtain ⟨n, -, rfl⟩ := hown
    exact ⟨rfl, ih hv⟩
  | ptr pointee ih =>
    obtain ⟨_, below, hown, hb, rfl⟩ := mapNodes?_eq_some h
    obtain ⟨v, hv, rfl⟩ := mapM_one hb
    obtain rfl := Option.some.inj hown
    exact ⟨trivial, ih hv⟩
  | base info =>
    obtain ⟨_, below, hown, -, rfl⟩ := mapNodes?_eq_some h
    obtain rfl := Option.some.inj hown
    exact trivial

end Shape

namespace Pipeline

/-- What the standard pipeline keeps is final, and code is generated for it. -/
theorem isFinal_of_finalize {d : Directives} {name : String} {s r : Shape}
    (h : (standard d).finalize name s = some r) : r.IsFinal ∧ r.isPrintable = true := by
  simp only [finalize, standard, resolving, List.cons_append, List.nil_append, List.foldlM_cons,
    List.foldlM_nil, Pass.apply, Option.bind_eq_bind, Option.bind_some,
    Option.bind_eq_some_iff, Option.pure_def, Option.some.injEq] at h
  obtain ⟨s₁, -, s₂, h₂, s₃, h₃, rfl⟩ := h
  split at h₃
  · rename_i hp
    obtain rfl := Option.some.inj h₃
    exact ⟨Shape.isFinal_mapNodes (Shape.everywhere_isSizedNode h₂), hp⟩
  · cases h₃

end Pipeline

namespace Table

/-- Every identity of a table is final, and code is generated for it. -/
def IsFinal (t : Table) : Prop :=
  ∀ name s, t.get? name = some s → s.IsFinal ∧ s.isPrintable = true

theorem isFinal_finalizeAll (d : Directives) (t : Table) :
    ((Pipeline.standard d).finalizeAll t).IsFinal := by
  intro name s h
  have hm := Assoc.mem_of_get? h
  obtain ⟨e, -, he⟩ := List.mem_filterMap.1 hm
  obtain ⟨r, hr, heq⟩ := Option.map_eq_some_iff.1 he
  obtain ⟨rfl, rfl⟩ := Prod.mk.inj heq
  exact Pipeline.isFinal_of_finalize hr

end Table

end Packwright
