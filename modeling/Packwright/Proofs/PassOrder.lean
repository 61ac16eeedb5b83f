import Mathlib.Data.List.Pairwise
import Packwright.Job
import Packwright.Proofs.Finalized

/-
  The passes in any order. A pass lets an identity through or drops it, and changes what the nodes
  of its shape record: `Edit` says how, at a struct by the data of its fields and at an array by
  its own. One edit after another is one edit (`edit?_andThen`), at every depth and also where an
  edit stops half way. So passes can be compared by what they record at a single node: those of the
  same directives write different data and read none that another writes (`commutes_of_mem`), and
  each of them writes the same again when it runs again (`andThen_self`).

  `finalize_eq_of_same_passes`: pipelines of the same passes, in whatever order and however often,
  give the same shapes and the same tables; one that runs on its own result changes nothing.
-/

namespace Packwright

/-! ## Edits -/

/-- How a pass changes what structs and arrays record. A struct is changed by the data of its
fields, skipped ones included; an array may be one that cannot be changed. -/
@[ext] structure Edit where
  struct : StructInfo → List FieldInfo → StructInfo
  array : ArrayInfo → Option ArrayInfo

namespace Edit

/-- Changes nothing. -/
def keep : Edit := ⟨fun info _ => info, some⟩

/-- One edit after another. Neither changes the data of fields, so both go by the same. -/
def andThen (e e' : Edit) : Edit where
  struct info fields := e'.struct (e.struct info fields) fields
  array info := (e.array info).bind e'.array

/-- What an edit does at one node. -/
def node (e : Edit) : Shape → Option Shape
  | .struct info fields => some (.struct (e.struct info (fields.map Field.info)) fields)
  | .array info element => (e.array info).map fun info => .array info element
  | s => some s

theorem andThen_keep (e : Edit) : e.andThen keep = e := by
  ext info
  · rfl
  · simp [andThen, keep]

end Edit

namespace Shape

/-- A shape with an edit made at every node, if it can be made at each of them. -/
def edit? (e : Edit) (s : Shape) : Option Shape := s.mapNodes? e.node

/-- Fields with an edit made in their shapes. -/
def editFields? (e : Edit) (fields : List Field) : Option (List Field) :=
  fields.mapM fun f => (f.value.edit? e).map (Field.mk f.info)

theorem mapM_withValues (g : Shape → Option Shape) (fields : List Field) :
    ((fields.map Field.value).mapM g).map (Field.withValues fields) =
      fields.mapM fun f => (g f.value).map (Field.mk f.info) := by
  induction fields with
  | nil => rfl
  | cons f rest ih =>
    rw [List.map_cons, List.mapM_cons, List.mapM_cons, ← ih]
    cases g f.value with
    | none => rfl
    | some value =>
      cases (rest.map Field.value).mapM g with
      | none => rfl
      | some values => rfl

theorem edit?_struct (e : Edit) (info : StructInfo) (fields : List Field) :
    (struct info fields).edit? e =
      (editFields? e fields).map (struct (e.struct info (fields.map Field.info))) := by
  have hfields := mapM_withValues (edit? e) fields
  rw [edit?, mapNodes?_eq, editFields?, ← hfields, children]
  change (((fields.map Field.value).mapM (edit? e)).bind fun values => some _) = _
  cases (fields.map Field.value).mapM (edit? e) with
  | none => rfl
  | some values => rfl

theorem mapM_singleton (g : Shape → Option Shape) (child : Shape) :
    [child].mapM g = (g child).map fun r => [r] := by
  rw [List.mapM_cons]
  cases g child with
  | none => rfl
  | some r => rfl

/-- A node that records nothing, around one other shape. -/
theorem edit?_around {e : Edit} {s child : Shape} {build : Shape → Shape}
    (hchild : s.children = [child]) (hnode : e.node s = some s)
    (hbuild : ∀ r, s.withChildren [r] = build r) :
    s.edit? e = (child.edit? e).map build := by
  rw [edit?, mapNodes?_eq, hchild, hnode, mapM_singleton]
  change (((child.edit? e).map fun r => [r]).bind fun below => some (s.withChildren below)) = _
  cases child.edit? e with
  | none => rfl
  | some r => exact congrArg some (hbuild r)

theorem edit?_map (e : Edit) (key : KeyKind) (value : Shape) :
    (map key value).edit? e = (value.edit? e).map (map key) :=
  edit?_around rfl rfl fun _ => rfl

theorem edit?_slice (e : Edit) (element : Shape) :
    (slice element).edit? e = (element.edit? e).map slice :=
  edit?_around rfl rfl fun _ => rfl

theorem edit?_ptr (e : Edit) (pointee : Shape) :
    (ptr pointee).edit? e = (pointee.edit? e).map ptr :=
  edit?_around rfl rfl fun _ => rfl

theorem edit?_array (e : Edit) (info : ArrayInfo) (element : Shape) :
    (array info element).edit? e =
      (e.array info).bind fun info => (element.edit? e).map (array info) := by
  rw [edit?, mapNodes?_eq, children, mapM_singleton]
  change (((e.array info).map fun info => array info element).bind fun own =>
    ((element.edit? e).map fun r => [r]).bind fun below => some _) = _
  cases e.array info with
  | none => rfl
  | some own =>
    cases element.edit? e with
    | none => rfl
    | some r => rfl

theorem edit?_base (e : Edit) (info : BaseInfo) : (base info).edit? e = some (base info) := by
  rw [edit?, mapNodes?_eq]
  rfl

theorem editFields?_cons (e : Edit) (f : Field) (rest : List Field) :
    editFields? e (f :: rest) = (f.value.edit? e).bind fun value =>
      (editFields? e rest).map (Field.mk f.info value :: ·) := by
  unfold editFields?
  rw [List.mapM_cons]
  cases f.value.edit? e with
  | none => rfl
  | some value =>
    cases rest.mapM fun f => (f.value.edit? e).map (Field.mk f.info) with
    | none => rfl
    | some others => rfl

theorem infos_editFields? {e : Edit} {fields edited : List Field}
    (h : editFields? e fields = some edited) :
    edited.map Field.info = fields.map Field.info := by
  induction fields generalizing edited with
  | nil =>
    obtain rfl := Option.some.inj h
    rfl
  | cons f rest ih =>
    rw [editFields?_cons] at h
    obtain ⟨value, -, h⟩ := Option.bind_eq_some_iff.1 h
    obtain ⟨others, hothers, rfl⟩ := Option.map_eq_some_iff.1 h
    rw [List.map_cons, List.map_cons, ih hothers, Field.info_mk]

theorem editFields?_andThen {e e' : Edit} {fields : List Field}
    (h : ∀ f ∈ fields, (f.value.edit? e).bind (edit? e') = f.value.edit? (e.andThen e')) :
    (editFields? e fields).bind (editFields? e') = editFields? (e.andThen e') fields := by
  induction fields with
  | nil => rfl
  | cons f rest ih =>
    have hf := h f List.mem_cons_self
    have hrest := ih fun g hg => h g (List.mem_cons_of_mem _ hg)
    rw [editFields?_cons, editFields?_cons, ← hf, ← hrest]
    cases f.value.edit? e with
    | none => rfl
    | some value =>
      cases editFields? e rest with
      | none => exact (Option.bind_fun_none (value.edit? e')).symm
      | some others => exact editFields?_cons e' (.mk f.info value) others

/-- One edit after another is one edit, also where one of them cannot be made. -/
theorem edit?_andThen (e e' : Edit) (s : Shape) :
    (s.edit? e).bind (edit? e') = s.edit? (e.andThen e') := by
  induction s with
  | struct info fields ih =>
    rw [edit?_struct, edit?_struct, ← editFields?_andThen ih]
    cases hedited : editFields? e fields with
    | none => rfl
    | some edited =>
      change (struct _ edited).edit? e' = _
      rw [edit?_struct, infos_editFields? hedited]
      rfl
  | map key value ih =>
    rw [edit?_map, edit?_map, ← ih]
    cases value.edit? e with
    | none => rfl
    | some r => exact edit?_map e' key r
  | slice element ih =>
    rw [edit?_slice, edit?_slice, ← ih]
    cases element.edit? e with
    | none => rfl
    | some r => exact edit?_slice e' r
  | array info element ih =>
    rw [edit?_array, edit?_array, ← ih]
    change _ = ((e.array info).bind e'.array).bind _
    cases e.array info with
    | none => rfl
    | some own =>
      cases element.edit? e with
      | none => exact (Option.bind_fun_none (e'.array own)).symm
      | some r => exact edit?_array e' own r
  | ptr pointee ih =>
    rw [edit?_ptr, edit?_ptr, ← ih]
    cases pointee.edit? e with
    | none => rfl
    | some r => exact edit?_ptr e' r
  | base info =>
    rw [edit?_base, edit?_base]
    exact edit?_base e' info

theorem editFields?_keep {fields : List Field}
    (h : ∀ f ∈ fields, f.value.edit? .keep = some f.value) :
    editFields? .keep fields = some fields := by
  induction fields with
  | nil => rfl
  | cons f rest ih =>
    have hrest := ih fun g hg => h g (List.mem_cons_of_mem _ hg)
    rw [editFields?_cons, h f List.mem_cons_self, hrest]
    cases f with
    | mk info value => rfl

theorem edit?_keep (s : Shape) : s.edit? .keep = some s := by
  induction s with
  | struct info fields ih =>
    rw [edit?_struct, editFields?_keep ih]
    rfl
  | map key value ih =>
    rw [edit?_map, ih]
    rfl
  | slice element ih =>
    rw [edit?_slice, ih]
    rfl
  | array info element ih =>
    rw [edit?_array, ih]
    rfl
  | ptr pointee ih =>
    rw [edit?_ptr, ih]
    rfl
  | base info => exact edit?_base _ info

/-- An edit leaves the form of a shape alone, and scalars altogether. -/
theorem isPrintable_of_edit? {e : Edit} {s r : Shape} (h : s.edit? e = some r) :
    r.isPrintable = s.isPrintable := by
  cases s with
  | struct info fields =>
    rw [edit?_struct] at h
    obtain ⟨_, -, rfl⟩ := Option.map_eq_some_iff.1 h
    rfl
  | map key value =>
    rw [edit?_map] at h
    obtain ⟨_, -, rfl⟩ := Option.map_eq_some_iff.1 h
    rfl
  | slice element =>
    rw [edit?_slice] at h
    obtain ⟨_, -, rfl⟩ := Option.map_eq_some_iff.1 h
    rfl
  | array info element =>
    rw [edit?_array] at h
    obtain ⟨_, -, h⟩ := Option.bind_eq_some_iff.1 h
    obtain ⟨_, -, rfl⟩ := Option.map_eq_some_iff.1 h
    rfl
  | ptr pointee =>
    rw [edit?_ptr] at h
    obtain ⟨_, -, rfl⟩ := Option.map_eq_some_iff.1 h
    rfl
  | base info =>
    rw [edit?_base] at h
    rw [← Option.some.inj h]

/-- A traversal that never stops is one that may, and does not. -/
theorem mapNodes?_some (f : Shape → Shape) (s : Shape) :
    s.mapNodes? (fun node => some (f node)) = some (s.mapNodes f) := by
  have hbelow : ∀ below : List Shape,
      (∀ r ∈ below, r.mapNodes? (fun node => some (f node)) = some (r.mapNodes f)) →
      below.mapM (mapNodes? fun node => some (f node)) = some (below.map (mapNodes f)) := by
    intro below h
    induction below with
    | nil => rfl
    | cons r rest ih =>
      rw [List.mapM_cons, h r List.mem_cons_self,
        ih fun r' hr' => h r' (List.mem_cons_of_mem _ hr')]
      rfl
  have hnode : ∀ s : Shape,
      (∀ r ∈ s.children, r.mapNodes? (fun node => some (f node)) = some (r.mapNodes f)) →
      s.mapNodes? (fun node => some (f node)) = some (s.mapNodes f) := by
    intro s h
    rw [mapNodes?_eq, mapNodes_eq, hbelow _ h]
    rfl
  induction s with
  | struct info fields ih =>
    refine hnode _ fun r hr => ?_
    obtain ⟨g, hg, rfl⟩ := List.mem_map.1 hr
    exact ih g hg
  | map key value ih => exact hnode _ (List.forall_mem_singleton.2 ih)
  | slice element ih => exact hnode _ (List.forall_mem_singleton.2 ih)
  | array info element ih => exact hnode _ (List.forall_mem_singleton.2 ih)
  | ptr pointee ih => exact hnode _ (List.forall_mem_singleton.2 ih)
  | base info => exact hnode _ (List.forall_mem_nil _)

theorem mapNodes_eq_edit? {f : Shape → Shape} {e : Edit} (h : ∀ s, some (f s) = e.node s)
    (s : Shape) : some (s.mapNodes f) = s.edit? e := by
  have hf : (fun node => some (f node)) = e.node := funext h
  rw [edit?, ← hf, mapNodes?_some]

end Shape

/-! ## Passes -/

namespace Pass

/-- What a pass records. -/
def edit : Pass → Edit
  | tuple names =>
    ⟨fun info _ => if names.contains info.name then { info with asTuple := true } else info, some⟩
  | arraySizes constants =>
    ⟨fun info _ => info, fun info =>
      (resolveSize? constants info.size).map fun n => { info with resolved := some n }⟩
  | structMetadata =>
    ⟨fun info fields => { info with
      skipCount := fields.countP FieldInfo.skip
      hasOmitEmptyTags := fields.any fun f => !f.skip && f.omitEmpty }, some⟩
  | ignore _ | printable => .keep

/-- Whether a pass lets an identity through, by its name and the form of its shape. -/
def admits : Pass → String → Shape → Bool
  | ignore names, identity, _ => !names.contains identity
  | printable, _, s => s.isPrintable
  | _, _, _ => true

theorem admits_of_edit? {x : Pass} {e : Edit} {identity : String} {s r : Shape}
    (h : s.edit? e = some r) : x.admits identity r = x.admits identity s := by
  cases x with
  | printable => exact Shape.isPrintable_of_edit? h
  | _ => rfl

/-- A pass makes its edit in the identities that it lets through. -/
theorem apply_eq (x : Pass) (identity : String) (s : Shape) :
    x.apply identity s = if x.admits identity s then s.edit? x.edit else none := by
  cases x with
  | ignore names =>
    rw [edit, Shape.edit?_keep, apply, admits]
    cases names.contains identity <;> rfl
  | tuple names =>
    refine Shape.mapNodes_eq_edit? (fun node => ?_) s
    cases node with
    | struct info fields =>
      simp only [Shape.markTuple, Edit.node, edit]
      split <;> rfl
    | _ => rfl
  | arraySizes constants =>
    have hnode : Shape.resolveArray? constants = (arraySizes constants).edit.node := by
      funext node
      cases node with
      | array info element =>
        simp only [Shape.resolveArray?, Edit.node, edit]
        cases resolveSize? constants info.size <;> rfl
      | _ => rfl
    rw [apply, hnode]
    rfl
  | structMetadata =>
    refine Shape.mapNodes_eq_edit? (fun node => ?_) s
    cases node with
    | struct info fields =>
      simp only [Shape.computeMetadata, Edit.node, edit, List.countP_map, List.any_map]
      rfl
    | _ => rfl
  | printable =>
    rw [edit, Shape.edit?_keep, apply, admits]

theorem apply_bind_apply (x y : Pass) (identity : String) (s : Shape) :
    (x.apply identity s).bind (y.apply identity) =
      if x.admits identity s && y.admits identity s then s.edit? (x.edit.andThen y.edit)
      else none := by
  rw [apply_eq]
  cases x.admits identity s with
  | false => rfl
  | true =>
    rw [Bool.true_and, if_pos rfl, ← Shape.edit?_andThen]
    cases hr : s.edit? x.edit with
    | none => simp
    | some r =>
      change y.apply identity r = _
      rw [apply_eq, admits_of_edit? hr]
      rfl

/-- It does not matter which of two passes records its data first. -/
def Commutes (x y : Pass) : Prop := x.edit.andThen y.edit = y.edit.andThen x.edit

theorem commutes_keep {x y : Pass} (h : y.edit = .keep) : Commutes x y := by
  rw [Commutes, h]
  exact x.edit.andThen_keep

theorem commutes_tuple_arraySizes (names : List String) (constants : List (String × Nat)) :
    Commutes (tuple names) (arraySizes constants) := by
  refine Edit.ext rfl (funext fun info => ?_)
  simp [Edit.andThen, edit]

/-- The two go by the name of a struct and the tags of its fields, and neither writes them. -/
theorem commutes_tuple_structMetadata (names : List String) :
    Commutes (tuple names) structMetadata := by
  refine Edit.ext (funext fun info => funext fun fields => ?_) rfl
  simp only [Edit.andThen, edit]
  split <;> rfl

theorem commutes_arraySizes_structMetadata (constants : List (String × Nat)) :
    Commutes (arraySizes constants) structMetadata := by
  refine Edit.ext rfl (funext fun info => ?_)
  simp [Edit.andThen, edit]

/-- The passes of the same directives record different data, and none goes by what another
records. -/
theorem commutes_of_mem {d : Directives} {x y : Pass} (hx : x ∈ Pipeline.standard d)
    (hy : y ∈ Pipeline.standard d) : Commutes x y := by
  have hpairs : (Pipeline.standard d).Pairwise Commutes := by
    simp only [Pipeline.standard, Pipeline.resolving, List.cons_append, List.nil_append,
      List.pairwise_cons, List.forall_mem_cons]
    exact ⟨⟨(commutes_keep rfl).symm, (commutes_keep rfl).symm, (commutes_keep rfl).symm,
        commutes_keep rfl, by simp⟩,
      ⟨commutes_tuple_arraySizes _ _, commutes_tuple_structMetadata _, commutes_keep rfl, by simp⟩,
      ⟨commutes_arraySizes_structMetadata _, commutes_keep rfl, by simp⟩,
      ⟨commutes_keep rfl, by simp⟩, by simp, .nil⟩
  have hflip : (Pipeline.standard d).Pairwise (flip Commutes) := hpairs.imp Eq.symm
  have hself : ∀ z ∈ Pipeline.standard d, Commutes z z := fun _ _ => rfl
  exact hpairs.forall_of_forall_of_flip hself hflip hx hy

/-- What a pass records a second time is what it recorded before. -/
theorem andThen_self (x : Pass) : x.edit.andThen x.edit = x.edit := by
  cases x with
  | ignore names => rfl
  | tuple names =>
    refine Edit.ext (funext fun info => funext fun fields => ?_) rfl
    simp only [Edit.andThen, edit]
    split <;> simp [*]
  | arraySizes constants =>
    refine Edit.ext rfl (funext fun info => ?_)
    simp only [Edit.andThen, edit]
    cases hsize : resolveSize? constants info.size with
    | none => rfl
    | some n => simp [hsize]
  | structMetadata => rfl
  | printable => rfl

/-- Passes of the same directives can change places. -/
theorem apply_comm {d : Directives} {x y : Pass} (hx : x ∈ Pipeline.standard d)
    (hy : y ∈ Pipeline.standard d) (identity : String) (s : Shape) :
    (x.apply identity s).bind (y.apply identity) =
      (y.apply identity s).bind (x.apply identity) := by
  rw [apply_bind_apply, apply_bind_apply, commutes_of_mem hx hy, Bool.and_comm]

/-- A pass that runs a second time changes nothing. -/
theorem apply_idem (x : Pass) (identity : String) (s : Shape) :
    (x.apply identity s).bind (x.apply identity) = x.apply identity s := by
  rw [apply_bind_apply, andThen_self, Bool.and_self, apply_eq]

end Pass

/-! ## Pipelines -/

namespace Pipeline

theorem finalize_cons (x : Pass) (p : Pipeline) (identity : String) (s : Shape) :
    finalize (x :: p) identity s = (x.apply identity s).bind (p.finalize identity) := rfl

theorem finalize_append (p q : Pipeline) (identity : String) (s : Shape) :
    finalize (p ++ q) identity s = (p.finalize identity s).bind (q.finalize identity) :=
  List.foldlM_append

/-- A pass moves from the front of a pipeline to its end. -/
theorem finalize_move {d : Directives} {x : Pass} {p : Pipeline} (hx : x ∈ standard d)
    (hp : p ⊆ standard d) (identity : String) (s : Shape) :
    (x.apply identity s).bind (p.finalize identity) =
      (p.finalize identity s).bind (x.apply identity) := by
  induction p generalizing s with
  | nil =>
    change (x.apply identity s).bind some = x.apply identity s
    exact Option.bind_fun_some _
  | cons y rest ih =>
    obtain ⟨hy, hrest⟩ := List.cons_subset.1 hp
    calc (x.apply identity s).bind (finalize (y :: rest) identity)
        = ((x.apply identity s).bind (y.apply identity)).bind (finalize rest identity) :=
          (Option.bind_assoc _ _ _).symm
      _ = ((y.apply identity s).bind (x.apply identity)).bind (finalize rest identity) := by
          rw [Pass.apply_comm hx hy]
      _ = (y.apply identity s).bind fun r =>
            (x.apply identity r).bind (finalize rest identity) := Option.bind_assoc _ _ _
      _ = (y.apply identity s).bind fun r =>
            (finalize rest identity r).bind (x.apply identity) := by
          exact congrArg _ (funext fun r => ih hrest r)
      _ = (finalize (y :: rest) identity s).bind (x.apply identity) := by
          rw [finalize_cons, Option.bind_assoc]

theorem finalize_append_comm {d : Directives} {p q : Pipeline} (hp : p ⊆ standard d)
    (hq : q ⊆ standard d) (identity : String) (s : Shape) :
    finalize (p ++ q) identity s = finalize (q ++ p) identity s := by
  rw [finalize_append, finalize_append]
  induction p generalizing s with
  | nil => exact (Option.bind_fun_some _).symm
  | cons x rest ih =>
    obtain ⟨hx, hrest⟩ := List.cons_subset.1 hp
    rw [finalize_cons, Option.bind_assoc, funext fun r => ih hrest r, ← Option.bind_assoc,
      finalize_move hx hq, Option.bind_assoc]
    rfl

/-- A pass that stands in a pipeline changes nothing in front of it. -/
theorem finalize_absorb {d : Directives} {x : Pass} {p : Pipeline} (hp : p ⊆ standard d)
    (hx : x ∈ p) (identity : String) (s : Shape) :
    finalize (x :: p) identity s = p.finalize identity s := by
  induction p generalizing s with
  | nil => cases hx
  | cons y rest ih =>
    have hall := List.cons_subset.1 hp
    rw [finalize_cons, finalize_cons y]
    rw [show finalize (y :: rest) identity = fun r => (y.apply identity r).bind
      (finalize rest identity) from rfl, ← Option.bind_assoc]
    rcases List.mem_cons.1 hx with rfl | hx
    · rw [Pass.apply_idem]
    · rw [Pass.apply_comm (hall.2 hx) hall.1, Option.bind_assoc]
      exact congrArg _ (funext fun r => ih hall.2 hx r)

theorem finalize_append_of_subset {d : Directives} {p q : Pipeline} (hp : p ⊆ standard d)
    (hq : q ⊆ p) (identity : String) (s : Shape) :
    finalize (q ++ p) identity s = p.finalize identity s := by
  induction q generalizing s with
  | nil => rfl
  | cons x rest ih =>
    obtain ⟨hx, hrest⟩ := List.cons_subset.1 hq
    rw [List.cons_append, finalize_cons, funext fun r => ih hrest r]
    exact finalize_absorb hp hx identity s

/-- A pipeline gives what another with the same passes gives. -/
theorem finalize_congr {d : Directives} {p q : Pipeline} (hp : p ⊆ standard d)
    (hpq : ∀ x, x ∈ p ↔ x ∈ q) : p.finalize = q.finalize := by
  have hq : q ⊆ standard d := fun x hx => hp ((hpq x).2 hx)
  funext identity s
  calc p.finalize identity s
      = finalize (q ++ p) identity s :=
        (finalize_append_of_subset hp (fun x hx => (hpq x).2 hx) identity s).symm
    _ = finalize (p ++ q) identity s := finalize_append_comm hq hp identity s
    _ = q.finalize identity s :=
        finalize_append_of_subset hq (fun x hx => (hpq x).1 hx) identity s

theorem finalizeAll_append (p q : Pipeline) (t : Table) :
    finalizeAll (p ++ q) t = q.finalizeAll (p.finalizeAll t) := by
  unfold finalizeAll Table.filterMap
  simp only [Table.mk.injEq, List.filterMap_filterMap]
  refine congrArg (List.filterMap · t.entries) (funext fun e => ?_)
  rw [finalize_append]
  cases p.finalize e.1 e.2 with
  | none => rfl
  | some r => rfl

/-- Pipelines of the same passes give the same shape for every identity, or both drop it, and the
same table in the same order. So a pipeline that runs on its own result changes nothing, and the
table that a run generates code for, filtered from the one that its schema describes, is that of
the standard pipeline. -/
theorem finalize_eq_of_same_passes (d : Directives) (p q : Pipeline) (hp : p ⊆ standard d)
    (hpq : ∀ x, x ∈ p ↔ x ∈ q) :
    (∀ identity s, p.finalize identity s = q.finalize identity s) ∧
      (∀ t, p.finalizeAll t = q.finalizeAll t) ∧
      (∀ identity s r, p.finalize identity s = some r → p.finalize identity r = some r) ∧
      (∀ t, p.finalizeAll (p.finalizeAll t) = p.finalizeAll t) ∧
      ∀ t, (Input.ofTable d t).identities = (standard d).finalizeAll t := by
  have hsame := finalize_congr hp hpq
  -- a pipeline that runs twice has the passes that it has when it runs once
  have htwice : finalize (p ++ p) = p.finalize :=
    finalize_congr (List.append_subset.2 ⟨hp, hp⟩) fun x => by simp
  refine ⟨fun identity s => by rw [hsame], fun t => by rw [finalizeAll, finalizeAll, hsame],
    fun identity s r h => ?_, fun t => ?_, fun t => ?_⟩
  · have hrun := finalize_append p p identity s
    rw [htwice, h] at hrun
    exact hrun.symm
  · rw [← finalizeAll_append, finalizeAll, finalizeAll, htwice]
  · exact (finalizeAll_append (resolving d) [.printable] t).symm

/-- Some of the passes run twice, and the printability filter before all others. -/
def shuffled (d : Directives) : Pipeline :=
  [.printable, .structMetadata, .arraySizes d.constants, .structMetadata, .tuple d.tuple,
    .ignore d.ignore, .tuple d.tuple]

def pairDirectives : Directives :=
  { ignore := ["Draft"], tuple := ["Pair"], constants := [("WIDTH", 3)] }

def pair (info : StructInfo) (resolved : Option Nat) : Shape :=
  .struct { info with name := "Pair" } [
    .mk { name := "note", omitEmpty := true, skip := true } (.ofKind .string),
    .mk { zid := 1, name := "cells", omitEmpty := true }
      (.array ⟨" WIDTH ", resolved⟩ (.ofKind .int64))]

def pairTable : Table := Table.ofList [
  ("Draft", .slice (.ofKind .bool)), ("Pair", pair { name := "" } none), ("Alias", .ident "Pair"),
  ("Wild", .array { size := "HEIGHT" } (.ofKind .bool))]

theorem finalizeAll_shuffled : standard pairDirectives ⊆ standard pairDirectives ∧
    (∀ x, x ∈ standard pairDirectives ↔ x ∈ shuffled pairDirectives) ∧
    ((shuffled pairDirectives).finalizeAll pairTable).entries = [("Pair", pair
      { name := "", asTuple := true, skipCount := 1, hasOmitEmptyTags := true } (some 3))] := by
  have hmem : ∀ x, x ∈ standard pairDirectives ↔ x ∈ shuffled pairDirectives := by
    intro x
    simp only [standard, resolving, shuffled, List.cons_append, List.nil_append, List.mem_cons,
      List.not_mem_nil, or_false]
    grind
  have hsame := finalize_eq_of_same_passes pairDirectives (standard pairDirectives)
    (shuffled pairDirectives) (List.Subset.refl _) hmem
  refine ⟨List.Subset.refl _, hmem, ?_⟩
  rw [← hsame.2.1 pairTable]
  rfl

end Pipeline

end Packwright
