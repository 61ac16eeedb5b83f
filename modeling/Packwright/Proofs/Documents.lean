import Packwright.Proofs.Induction
import Packwright.Proofs.JsonText
import Packwright.Shape.Document
import Packwright.Shape.Visit

/-
  Documents of tables. Writing a shape and reading the document back gives the shape
  (`node?_toJson` for one node, `innerOfJson?_toJson` for all of them), and the text of a table
  determines the table when its counts fit 64 bits and it opens no more brackets than a reader
  allows. What is read from a document has such counts and opens no more brackets than the
  document did (`Holds`), whichever of the forms of a record it uses, so it can be written and
  read again.
-/

namespace Packwright

theorem Kind.ofWord?_word (k : Kind) : Kind.ofWord? k.word = some k := by
  cases k <;> rfl

theorem KeyKind.ofWord?_word (k : KeyKind) : KeyKind.ofWord? k.word = some k := by
  cases k <;> rfl

theorem Assoc.insert_of_notMem {α : Type} {entries : List (String × α)} {name : String}
    (h : name ∉ names entries) (a : α) : insert entries name a = entries ++ [(name, a)] := by
  induction entries with
  | nil => rfl
  | cons e rest ih =>
    rw [names_cons, List.mem_cons, not_or] at h
    rw [insert, if_neg (Ne.symm h.1), ih h.2, List.cons_append]

theorem Assoc.mem_of_mem_insert {α : Type} {entries : List (String × α)} {name : String} {a : α}
    {e : String × α} (h : e ∈ insert entries name a) : e = (name, a) ∨ e ∈ entries := by
  induction entries with
  | nil => exact .inl (List.mem_singleton.1 h)
  | cons d rest ih =>
    unfold insert at h
    split at h
    · exact (List.mem_cons.1 h).imp id (List.mem_cons_of_mem d)
    · rcases List.mem_cons.1 h with rfl | h
      · exact .inr List.mem_cons_self
      · exact (ih h).imp id (List.mem_cons_of_mem d)

theorem Assoc.mem_of_mem_ofList {α : Type} {entries : List (String × α)} {e : String × α}
    (h : e ∈ ofList entries) : e ∈ entries := by
  suffices hrun : ∀ acc, e ∈ entries.foldl (fun acc e => insert acc e.1 e.2) acc →
      e ∈ acc ∨ e ∈ entries from (hrun [] h).resolve_left List.not_mem_nil
  clear h
  induction entries with
  | nil => exact fun acc h => .inl h
  | cons d rest ih =>
    intro acc h
    rcases ih _ h with h | h
    · rcases mem_of_mem_insert h with rfl | h
      · exact .inr List.mem_cons_self
      · exact .inl h
    · exact .inr (List.mem_cons_of_mem d h)

theorem Assoc.ofList_of_nodup {α : Type} {entries : List (String × α)}
    (h : (names entries).Nodup) : ofList entries = entries := by
  suffices hrun : ∀ acc : List (String × α), (names (acc ++ entries)).Nodup →
      entries.foldl (fun acc e => insert acc e.1 e.2) acc = acc ++ entries from hrun [] h
  induction entries with
  | nil => intro acc _; simp
  | cons e rest ih =>
    intro acc hacc
    have hnew : e.1 ∉ names acc := by
      simp only [names, List.map_append, List.map_cons, List.nodup_append] at hacc
      exact fun hmem => hacc.2.2 _ hmem _ List.mem_cons_self rfl
    have hstep : acc ++ e :: rest = (acc ++ [e]) ++ rest := by simp
    rw [List.foldl_cons, insert_of_notMem hnew, hstep]
    exact ih (List.nodup_cons.1 h).2 _ (hstep ▸ hacc)

theorem mem_of_mapM_eq_some {α β : Type} {f : α → Option β} {xs : List α} {ys : List β}
    (h : xs.mapM f = some ys) {y : β} (hy : y ∈ ys) : ∃ x ∈ xs, f x = some y := by
  induction xs generalizing ys with
  | nil =>
    obtain rfl := Option.some.inj h
    exact absurd hy List.not_mem_nil
  | cons x rest ih =>
    rw [List.mapM_cons] at h
    obtain ⟨z, hz, h⟩ := Option.bind_eq_some_iff.1 h
    obtain ⟨zs, hzs, h⟩ := Option.bind_eq_some_iff.1 h
    obtain rfl := Option.some.inj h
    rcases List.mem_cons.1 hy with rfl | hy
    · exact ⟨x, List.mem_cons_self, hz⟩
    · obtain ⟨w, hw, hf⟩ := ih hzs hy
      exact ⟨w, List.mem_cons_of_mem _ hw, hf⟩

theorem mapM_map_eq_some {α β : Type} {read : β → Option α} {write : α → β} {items : List α}
    (h : ∀ a ∈ items, read (write a) = some a) : (items.map write).mapM read = some items := by
  induction items with
  | nil => rfl
  | cons a rest ih =>
    obtain ⟨ha, hrest⟩ := List.forall_mem_cons.1 h
    rw [List.map_cons, List.mapM_cons, ha, ih hrest]
    rfl

namespace Document

/-! ## Reading members -/

theorem int64?_toInt (n : Int64) : int64? (.int n.toInt) = some n := by
  have hrange : Int64.minValue.toInt ≤ n.toInt ∧ n.toInt ≤ Int64.maxValue.toInt :=
    ⟨Int64.minValue_le_toInt n, Int64.toInt_le n⟩
  rw [int64?, if_pos hrange, Int64.ofInt_toInt]

theorem count?_natCast {n : Nat} (h : n < UInt64.size) : count? (.int n) = some n := by
  have hrange : (0 : Int) ≤ n ∧ (n : Int) < UInt64.size := ⟨by omega, by exact_mod_cast h⟩
  rw [count?, if_pos hrange, Int.toNat_natCast]

theorem lt_of_count? {v : Json} {n : Nat} (h : count? v = some n) : n < UInt64.size := by
  unfold count? at h
  split at h
  · split at h
    · obtain rfl := Option.some.inj h
      omega
    · cases h
  · cases h

/-- A record that has known members only, none of them twice, keeps all of them. -/
theorem members?_obj {names : List String} {ms : Members} (hnodup : (Assoc.names ms).Nodup)
    (hknown : ∀ m ∈ ms, names.contains m.1 = true) : members? names (.obj ms) = some ms := by
  have hall : ms.filter (fun m => names.contains m.1) = ms := List.filter_eq_self.2 hknown
  simp only [members?, hall, if_pos hnodup]

section

variable {α : Type} (ms : Members) (name : String) (v : Json) (default : α)
  (read : Json → Option α)

@[simp] theorem required_cons_self : required ((name, v) :: ms) name read = read v := by
  simp [required, Assoc.get?]

@[simp] theorem optional_nil : Document.optional [] name default read = some default := rfl

@[simp] theorem optional_cons_self :
    Document.optional ((name, v) :: ms) name default read = read v := by
  simp [Document.optional, Assoc.get?]

variable {name} {other : String}

@[simp] theorem required_cons_of_ne (h : other ≠ name) :
    required ((other, v) :: ms) name read = required ms name read := by
  simp [required, Assoc.get?, h]

@[simp] theorem optional_cons_of_ne (h : other ≠ name) :
    Document.optional ((other, v) :: ms) name default read =
      Document.optional ms name default read := by
  simp [Document.optional, Assoc.get?, h]

end

/-- A list of items that were written one by one is read back. -/
theorem list?_map {α : Type} {read : Json → Option α} {write : α → Json} {items : List α}
    (h : ∀ a ∈ items, read (write a) = some a) : list? read (.arr (items.map write)) = some items :=
  mapM_map_eq_some h

theorem lt_of_nullable_count? {v : Json} {n : Nat} (h : nullable count? v = some (some n)) :
    n < UInt64.size := by
  unfold nullable at h
  split at h
  · cases h
  · obtain ⟨m, hm, h⟩ := Option.map_eq_some_iff.1 h
    obtain rfl := Option.some.inj h
    exact lt_of_count? hm

/-- What a list holds was read from inside the list. -/
theorem of_list? {α : Type} {read : Json → Option α} {v : Json} {as : List α}
    (h : list? read v = some as) :
    0 < v.depth ∧ ∀ a ∈ as, ∃ w, w.depth < v.depth ∧ read w = some a := by
  unfold list? at h
  split at h
  · rename_i items
    refine ⟨Nat.succ_pos _, fun a ha => ?_⟩
    obtain ⟨w, hw, hread⟩ := mem_of_mapM_eq_some h ha
    exact ⟨w, Json.depth_lt_arr hw, hread⟩
  · cases h

/-- The members of a record are less deep than the record. -/
theorem depth_lt_of_members? {names : List String} {v : Json} {ms : Members}
    (h : members? names v = some ms) {m : String × Json} (hm : m ∈ ms) : m.2.depth < v.depth := by
  unfold members? at h
  split at h
  · rename_i found
    dsimp only at h
    split at h
    · obtain rfl := Option.some.inj h
      exact Json.depth_lt_obj (List.mem_filter.1 hm).1
    · cases h
  · rename_i items
    split at h
    · obtain rfl := Option.some.inj h
      exact Json.depth_lt_arr (List.of_mem_zip hm).2
    · cases h
  · cases h

/-- A member that has to be present was read from inside the record. -/
theorem of_required {α : Type} {names : List String} {v : Json} {ms : Members}
    (hms : members? names v = some ms) {name : String} {read : Json → Option α} {a : α}
    (h : required ms name read = some a) : ∃ w, w.depth < v.depth ∧ read w = some a := by
  obtain ⟨w, hw, hread⟩ := Option.bind_eq_some_iff.1 h
  exact ⟨w, depth_lt_of_members? hms (Assoc.mem_of_get? hw), hread⟩

/-- A member that may be absent was read or is the default. -/
theorem of_optional {α : Type} {ms : Members} {name : String} {default : α}
    {read : Json → Option α} {a : α} (h : Document.optional ms name default read = some a) :
    a = default ∨ ∃ w, read w = some a := by
  unfold Document.optional at h
  split at h
  · exact .inl (Option.some.inj h).symm
  · exact .inr ⟨_, h⟩

end Document

namespace Shape

open Document

/-! ## Writing and reading back -/

/-- The counts that a node records fit 64 bits. -/
def CountsFit : Shape → Prop
  | struct info _ => info.skipCount < UInt64.size
  | array info _ => ∀ n, info.resolved = some n → n < UInt64.size
  | _ => True

/-- The document of a field. -/
def fieldToJson (f : Field) : Json :=
  .obj [("zid", .int f.info.zid.toInt), ("name", .str f.info.name),
    ("omit_empty", .bool f.info.omitEmpty), ("skip", .bool f.info.skip),
    ("value", f.value.toJson)]

theorem fieldsToJson_eq (fields : List Field) : fieldsToJson fields = fields.map fieldToJson := by
  induction fields with
  | nil => rfl
  | cons f rest ih =>
    obtain ⟨info, value⟩ := f
    rw [fieldsToJson, ih]
    rfl

/-- Reads one node, given how to read its form and the shapes below it. -/
def node? (form? : Json → Option String) (read : Json → Option Shape) (v : Json) :
    Option Shape := do
  let (form, rest) ← tagged? form? v
  bodyOfJson? read form rest

theorem innerOfJson?_succ (levels : Nat) :
    innerOfJson? (levels + 1) = node? innerForm? (innerOfJson? levels) := rfl

theorem ofJson?_eq : ofJson? = node? text? (innerOfJson? Json.nestingLimit) := rfl

theorem fieldOfJson?_fieldToJson {read : Json → Option Shape} {f : Field}
    (h : read f.value.toJson = some f.value) : fieldOfJson? read (fieldToJson f) = some f := by
  obtain ⟨info, value⟩ := f
  have hvalue : read value.toJson = some value := h
  unfold fieldOfJson? fieldToJson
  rw [members?_obj (by simp) (by simp)]
  simp [hvalue, int64?_toInt, text?, flag?]

/-- A written node is its word and the rest of its members. -/
theorem node?_obj {form? : Json → Option String} {read : Json → Option Shape} {word : String}
    {ms : Members} (hform : form? (.str word) = some word) (hms : "shape" ∉ Assoc.names ms) :
    node? form? read (.obj (("shape", .str word) :: ms)) = bodyOfJson? read word (.obj ms) := by
  have hother : ∀ m ∈ ms, m.1 ≠ "shape" := fun m hm he => hms (he ▸ List.mem_map_of_mem hm)
  have hnone : ms.filter (fun m => m.1 == "shape") = [] :=
    List.filter_eq_nil_iff.2 fun m hm => by simpa using hother m hm
  have hall : ms.filter (fun m => m.1 != "shape") = ms :=
    List.filter_eq_self.2 fun m hm => by simpa using hother m hm
  simp [node?, tagged?, hnone, hall, hform]

/-- A node that was written is read back when the shapes below it are. -/
theorem node?_toJson {form? : Json → Option String} {read : Json → Option Shape} {s : Shape}
    (hform : ∀ word, form? (.str word) = some word) (hcounts : s.CountsFit)
    (hread : ∀ c ∈ s.children, read c.toJson = some c) : node? form? read s.toJson = some s := by
  cases s with
  | struct info fields =>
    have hfields : list? (fieldOfJson? read) (.arr (fields.map fieldToJson)) = some fields :=
      list?_map fun f hf => fieldOfJson?_fieldToJson (hread _ (List.mem_map_of_mem hf))
    have hskip : count? (.int info.skipCount) = some info.skipCount := count?_natCast hcounts
    rw [toJson, node?_obj (hform _) (by simp)]
    simp only [bodyOfJson?, reduceIte]
    rw [members?_obj (by simp) (by simp)]
    simp [text?, flag?, memberWord?, word?, KeyKind.ofWord?_word, fieldsToJson_eq, hfields, hskip]
  | map key value =>
    have hvalue : read value.toJson = some value := hread value List.mem_cons_self
    rw [toJson, node?_obj (hform _) (by simp)]
    simp only [bodyOfJson?, String.reduceEq, reduceIte]
    rw [members?_obj (by simp) (by simp)]
    simp [memberWord?, word?, KeyKind.ofWord?_word, hvalue]
  | slice element =>
    have helement : read element.toJson = some element := hread element List.mem_cons_self
    rw [toJson, node?_obj (hform _) (by simp)]
    simp only [bodyOfJson?, String.reduceEq, reduceIte]
    rw [members?_obj (by simp) (by simp)]
    simp [helement]
  | array info element =>
    have helement : read element.toJson = some element := hread element List.mem_cons_self
    rw [toJson, List.cons_append, node?_obj (hform _) (by cases info.resolved <;> simp)]
    simp only [bodyOfJson?, String.reduceEq, reduceIte]
    obtain ⟨size, resolved⟩ := info
    cases resolved with
    | none =>
      rw [members?_obj (by simp) (by simp)]
      simp [text?, helement]
    | some n =>
      have hn : count? (.int n) = some n := count?_natCast (hcounts n rfl)
      rw [members?_obj (by simp) (by simp)]
      simp [text?, nullable, helement, hn]
  | ptr pointee =>
    have hpointee : read pointee.toJson = some pointee := hread pointee List.mem_cons_self
    rw [toJson, node?_obj (hform _) (by simp)]
    simp only [bodyOfJson?, String.reduceEq, reduceIte]
    rw [members?_obj (by simp) (by simp)]
    simp [hpointee]
  | base info =>
    rw [toJson, List.append_assoc, List.cons_append,
      node?_obj (hform _) (by cases info.typeName <;> simp)]
    simp only [bodyOfJson?, String.reduceEq, reduceIte]
    obtain ⟨kind, typeName, needsConversion⟩ := info
    cases typeName with
    | none =>
      rw [members?_obj (by simp) (by simp)]
      simp [flag?, memberWord?, word?, Kind.ofWord?_word]
    | some name =>
      rw [members?_obj (by simp) (by simp)]
      simp [text?, flag?, nullable, memberWord?, word?, Kind.ofWord?_word]

theorem depth_fieldToJson (f : Field) : (fieldToJson f).depth = f.value.toJson.depth + 1 := by
  simp [fieldToJson, Json.depth, Json.membersDepth]

theorem depth_struct (info : StructInfo) (fields : List Field) :
    (struct info fields).toJson.depth = Json.itemsDepth (fields.map fieldToJson) + 2 := by
  simp [toJson, Json.depth, Json.membersDepth, fieldsToJson_eq]

/-- Every node but a struct and a scalar opens one bracket around the shape below it. -/
theorem depth_one {s c : Shape} (h : s.children = [c])
    (hs : ∀ info fields, s ≠ struct info fields) : s.toJson.depth = c.toJson.depth + 1 := by
  cases s with
  | struct info fields => exact absurd rfl (hs info fields)
  | array info element =>
    obtain ⟨rfl⟩ := h
    cases hr : info.resolved <;> simp [toJson, Json.depth, Json.membersDepth, hr]
  | base info => cases h
  | _ =>
    obtain ⟨rfl⟩ := h
    simp [toJson, Json.depth, Json.membersDepth]

theorem everywhere_iff_children {P : Shape → Prop} {s : Shape} :
    s.Everywhere P ↔ P s ∧ ∀ c ∈ s.children, c.Everywhere P := by
  cases s with
  | struct info fields => simp [Everywhere, everywhereIn_iff, children]
  | _ => simp [Everywhere, children]

theorem depth_base (info : BaseInfo) : (base info).toJson.depth = 1 := by
  cases h : info.typeName <;> simp [toJson, Json.depth, Json.membersDepth, h]

theorem depth_lt_of_mem_children {s c : Shape} (h : c ∈ s.children) :
    c.toJson.depth < s.toJson.depth := by
  have hone : ∀ {s d : Shape}, s.children = [d] → (∀ info fields, s ≠ struct info fields) →
      c ∈ s.children → c.toJson.depth < s.toJson.depth := by
    intro s d hd hs hmem
    rw [hd, List.mem_singleton] at hmem
    rw [depth_one hd hs, hmem]
    exact Nat.lt_succ_self _
  cases s with
  | struct info fields =>
    obtain ⟨f, hf, rfl⟩ := List.mem_map.1 h
    have hdepth := Json.itemsDepth_le.1 le_rfl _ (List.mem_map_of_mem (f := fieldToJson) hf)
    rw [depth_fieldToJson] at hdepth
    rw [depth_struct]
    omega
  | base info => exact absurd h List.not_mem_nil
  | _ => exact hone rfl nofun h

/-- A shape that opens no more brackets than there are levels is read back. -/
theorem innerOfJson?_toJson {levels : Nat} {s : Shape} (hcounts : s.Everywhere CountsFit)
    (hdepth : s.toJson.depth ≤ levels) : innerOfJson? levels s.toJson = some s := by
  induction levels generalizing s with
  | zero =>
    have hopen : 0 < s.toJson.depth := by
      cases s <;> exact Nat.succ_pos _
    omega
  | succ levels ih =>
    rw [innerOfJson?_succ]
    refine node?_toJson (fun _ => rfl) hcounts.here fun c hc => ?_
    have hlt := depth_lt_of_mem_children hc
    exact ih ((everywhere_iff_children.1 hcounts).2 c hc) (by omega)

theorem ofJson?_toJson {s : Shape} (hcounts : s.Everywhere CountsFit)
    (hdepth : s.toJson.depth ≤ Json.nestingLimit) : ofJson? s.toJson = some s := by
  rw [ofJson?_eq]
  refine node?_toJson (fun _ => rfl) hcounts.here fun c hc => ?_
  exact innerOfJson?_toJson ((everywhere_iff_children.1 hcounts).2 c hc)
    ((depth_lt_of_mem_children hc).le.trans hdepth)

theorem exact_fieldToJson {f : Field} (h : f.value.toJson.Exact) : (fieldToJson f).Exact := by
  simp [fieldToJson, Json.exact_toInt, h]

/-- The text of a shape whose counts fit 64 bits determines its document. -/
theorem exact_toJson {s : Shape} (h : s.Everywhere CountsFit) : s.toJson.Exact := by
  induction s with
  | struct info fields ih =>
    have hfields : (Json.arr (fieldsToJson fields)).Exact := by
      rw [fieldsToJson_eq]
      refine .arr fun v hv => ?_
      obtain ⟨f, hf, rfl⟩ := List.mem_map.1 hv
      exact exact_fieldToJson (ih f hf (h.field hf))
    have hskip : (Json.int info.skipCount).Exact := Json.exact_natCast h.here
    simp [toJson, hfields, hskip]
  | map key value ih => simp [toJson, ih h.2]
  | slice element ih => simp [toJson, ih h.2]
  | array info element ih =>
    cases hr : info.resolved with
    | none => simp [toJson, hr, ih h.2]
    | some n =>
      have hn : (Json.int n).Exact := Json.exact_natCast (h.here n hr)
      simp [toJson, hr, hn, ih h.2]
  | ptr pointee ih => simp [toJson, ih h.2]
  | base info => cases hn : info.typeName <;> simp [toJson, hn]

/-! ## Reading and writing again -/

/-- A shape that can be written, with no more brackets than a document opens. -/
def FitsIn (s : Shape) (v : Json) : Prop :=
  s.Everywhere CountsFit ∧ s.toJson.depth ≤ v.depth

theorem depth_le_of_tagged? {form? : Json → Option String} {v rest : Json} {form : String}
    (h : tagged? form? v = some (form, rest)) : rest.depth ≤ v.depth := by
  unfold tagged? at h
  split at h
  · rename_i members
    split at h
    · obtain ⟨word, -, h⟩ := Option.bind_eq_some_iff.1 h
      obtain ⟨-, rfl⟩ := Prod.mk.inj (Option.some.inj h)
      refine Nat.succ_le_succ (Json.membersDepth_le.2 fun m hm => ?_)
      exact Json.membersDepth_le.1 le_rfl m (List.mem_filter.1 hm).1
    · cases h
  · obtain ⟨word, -, h⟩ := Option.bind_eq_some_iff.1 h
    obtain ⟨-, rfl⟩ := Prod.mk.inj (Option.some.inj h)
    exact Nat.succ_le_succ (le_max_right _ _)
  · cases h

section

variable {read : Json → Option Shape} (hread : ∀ w c, read w = some c → c.FitsIn w)

include hread

theorem fitsIn_of_fieldOfJson? {v : Json} {f : Field} (h : fieldOfJson? read v = some f) :
    f.value.Everywhere CountsFit ∧ (fieldToJson f).depth ≤ v.depth := by
  unfold fieldOfJson? at h
  obtain ⟨ms, hms, h⟩ := Option.bind_eq_some_iff.1 h
  obtain ⟨zid, -, h⟩ := Option.bind_eq_some_iff.1 h
  obtain ⟨name, -, h⟩ := Option.bind_eq_some_iff.1 h
  obtain ⟨omitEmpty, -, h⟩ := Option.bind_eq_some_iff.1 h
  obtain ⟨skip, -, h⟩ := Option.bind_eq_some_iff.1 h
  obtain ⟨value, hvalue, h⟩ := Option.bind_eq_some_iff.1 h
  obtain rfl := Option.some.inj h
  obtain ⟨w, hw, hvalue⟩ := of_required hms hvalue
  obtain ⟨hcounts, hdepth⟩ := hread w value hvalue
  refine ⟨hcounts, ?_⟩
  rw [depth_fieldToJson]
  exact Nat.succ_le_of_lt (hdepth.trans_lt hw)

theorem fitsIn_struct {v w : Json} {info : StructInfo} {fields : List Field}
    (hskip : info.skipCount < UInt64.size) (hw : w.depth < v.depth)
    (h : list? (fieldOfJson? read) w = some fields) : (struct info fields).FitsIn v := by
  obtain ⟨hopen, hfields⟩ := of_list? h
  refine ⟨⟨hskip, everywhereIn_iff.2 fun f hf => ?_⟩, ?_⟩
  · obtain ⟨item, -, hitem⟩ := hfields f hf
    exact (fitsIn_of_fieldOfJson? hread hitem).1
  · have hdeep : Json.itemsDepth (fields.map fieldToJson) ≤ w.depth - 1 := by
      refine Json.itemsDepth_le.2 fun u hu => ?_
      obtain ⟨f, hf, rfl⟩ := List.mem_map.1 hu
      obtain ⟨item, hitem, hfield⟩ := hfields f hf
      have := (fitsIn_of_fieldOfJson? hread hfield).2
      omega
    rw [depth_struct]
    omega

/-- A node with one shape below it fits when that shape was read from a member. -/
theorem fitsIn_one {v : Json} {names : List String} {ms : Members} {name : String} {s c : Shape}
    (hms : members? names v = some ms) (hc : required ms name read = some c)
    (hchild : s.children = [c]) (hs : ∀ info fields, s ≠ struct info fields)
    (hcounts : s.CountsFit) : s.FitsIn v := by
  obtain ⟨w, hw, hvalue⟩ := of_required hms hc
  obtain ⟨hbelow, hdepth⟩ := hread w c hvalue
  refine ⟨everywhere_iff_children.2 ⟨hcounts, fun d hd => ?_⟩, ?_⟩
  · rw [hchild, List.mem_singleton] at hd
    exact hd ▸ hbelow
  · rw [depth_one hchild hs]
    omega

theorem fitsIn_of_bodyOfJson? {form : String} {v : Json} {s : Shape}
    (h : bodyOfJson? read form v = some s) : s.FitsIn v := by
  unfold bodyOfJson? at h
  split at h
  · obtain ⟨ms, hms, h⟩ := Option.bind_eq_some_iff.1 h
    obtain ⟨name, -, h⟩ := Option.bind_eq_some_iff.1 h
    obtain ⟨fields, hfields, h⟩ := Option.bind_eq_some_iff.1 h
    obtain ⟨asTuple, -, h⟩ := Option.bind_eq_some_iff.1 h
    obtain ⟨keyKind, -, h⟩ := Option.bind_eq_some_iff.1 h
    obtain ⟨skipCount, hskip, h⟩ := Option.bind_eq_some_iff.1 h
    obtain ⟨hasTags, -, h⟩ := Option.bind_eq_some_iff.1 h
    obtain rfl := Option.some.inj h
    obtain ⟨w, hw, hfields⟩ := of_required hms hfields
    refine fitsIn_struct hread ?_ hw hfields
    rcases of_optional hskip with rfl | ⟨w, hcount⟩
    · exact Nat.two_pow_pos 64
    · exact lt_of_count? hcount
  split at h
  · obtain ⟨ms, hms, h⟩ := Option.bind_eq_some_iff.1 h
    obtain ⟨key, -, h⟩ := Option.bind_eq_some_iff.1 h
    obtain ⟨value, hvalue, h⟩ := Option.bind_eq_some_iff.1 h
    obtain rfl := Option.some.inj h
    exact fitsIn_one hread hms hvalue rfl nofun trivial
  split at h
  · obtain ⟨ms, hms, h⟩ := Option.bind_eq_some_iff.1 h
    obtain ⟨element, helement, h⟩ := Option.bind_eq_some_iff.1 h
    obtain rfl := Option.some.inj h
    exact fitsIn_one hread hms helement rfl nofun trivial
  split at h
  · obtain ⟨ms, hms, h⟩ := Option.bind_eq_some_iff.1 h
    obtain ⟨element, helement, h⟩ := Option.bind_eq_some_iff.1 h
    obtain ⟨size, -, h⟩ := Option.bind_eq_some_iff.1 h
    obtain ⟨resolved, hresolved, h⟩ := Option.bind_eq_some_iff.1 h
    obtain rfl := Option.some.inj h
    refine fitsIn_one hread hms helement rfl nofun fun n hn => ?_
    obtain rfl : resolved = some n := hn
    rcases of_optional hresolved with hnone | ⟨w, hcount⟩
    · cases hnone
    · exact lt_of_nullable_count? hcount
  split at h
  · obtain ⟨ms, hms, h⟩ := Option.bind_eq_some_iff.1 h
    obtain ⟨pointee, hpointee, h⟩ := Option.bind_eq_some_iff.1 h
    obtain rfl := Option.some.inj h
    exact fitsIn_one hread hms hpointee rfl nofun trivial
  split at h
  · obtain ⟨ms, hms, h⟩ := Option.bind_eq_some_iff.1 h
    obtain ⟨kind, hkind, h⟩ := Option.bind_eq_some_iff.1 h
    obtain ⟨typeName, -, h⟩ := Option.bind_eq_some_iff.1 h
    obtain ⟨needsConversion, -, h⟩ := Option.bind_eq_some_iff.1 h
    obtain rfl := Option.some.inj h
    obtain ⟨w, hw, -⟩ := of_required hms hkind
    refine ⟨trivial, ?_⟩
    rw [depth_base]
    omega
  · cases h

theorem fitsIn_of_node? {form? : Json → Option String} {v : Json} {s : Shape}
    (h : node? form? read v = some s) : s.FitsIn v := by
  obtain ⟨⟨form, rest⟩, htag, hbody⟩ := Option.bind_eq_some_iff.1 h
  obtain ⟨hcounts, hdepth⟩ := fitsIn_of_bodyOfJson? hread hbody
  exact ⟨hcounts, hdepth.trans (depth_le_of_tagged? htag)⟩

end

theorem fitsIn_of_innerOfJson? {levels : Nat} {v : Json} {s : Shape}
    (h : innerOfJson? levels v = some s) : s.FitsIn v := by
  induction levels generalizing v s with
  | zero => cases h
  | succ levels ih => exact fitsIn_of_node? (fun _ _ => ih) h

/-- What is read from a document can be written with no more brackets than the document has. -/
theorem fitsIn_of_ofJson? {v : Json} {s : Shape} (h : ofJson? v = some s) : s.FitsIn v :=
  fitsIn_of_node? (fun _ _ => fitsIn_of_innerOfJson?) h

end Shape

namespace Table

/-- The counts that the shapes of a table record fit 64 bits. -/
def CountsFit (t : Table) : Prop := ∀ e ∈ t.entries, e.2.Everywhere Shape.CountsFit

theorem depth_lt_toJson {t : Table} {e : String × Shape} (he : e ∈ t.entries) :
    e.2.toJson.depth < t.toJson.depth :=
  Json.depth_lt_obj (m := (e.1, e.2.toJson)) (List.mem_map.2 ⟨e, he, rfl⟩)

theorem exact_toJson {t : Table} (h : t.CountsFit) : t.toJson.Exact := by
  refine .obj fun m hm => ?_
  obtain ⟨e, he, rfl⟩ := List.mem_map.1 hm
  exact Shape.exact_toJson (h e he)

theorem ofJson?_toJson {t : Table} (hcounts : t.CountsFit)
    (hdepth : t.toJson.depth ≤ Json.nestingLimit) : ofJson? t.toJson = some t := by
  have hentries : ∀ e ∈ t.entries, Shape.ofJson? e.2.toJson = some e.2 := fun e he =>
    Shape.ofJson?_toJson (hcounts e he) ((depth_lt_toJson he).le.trans hdepth)
  have hall : (t.entries.map fun e => (e.1, e.2.toJson)).mapM
      (fun m => do return (m.1, ← Shape.ofJson? m.2)) = some t.entries := by
    refine mapM_map_eq_some fun e he => ?_
    simp [hentries e he]
  obtain ⟨entries, distinct⟩ := t
  simp only [toJson, ofJson?] at hall ⊢
  rw [hall]
  simp [ofList, Assoc.ofList_of_nodup distinct]

/-- Reading the text of a table fails only when it opens too many brackets. -/
theorem read?_write_eq {t : Table} (h : t.CountsFit) :
    read? t.write = if t.toJson.depth ≤ Json.nestingLimit then some t else none := by
  unfold read? write
  rw [Json.read?_compact (exact_toJson h)]
  split
  · exact ofJson?_toJson h ‹_›
  · rfl

theorem fits_of_ofJson? {v : Json} {t : Table} (h : ofJson? v = some t) :
    t.CountsFit ∧ t.toJson.depth ≤ v.depth := by
  unfold ofJson? at h
  split at h
  · rename_i members
    obtain ⟨entries, hentries, h⟩ := Option.bind_eq_some_iff.1 h
    obtain rfl := Option.some.inj h
    have hfits : ∀ e ∈ (ofList entries).entries, ∃ m ∈ members, e.2.FitsIn m.2 := by
      intro e he
      obtain ⟨m, hm, hread⟩ := mem_of_mapM_eq_some hentries (Assoc.mem_of_mem_ofList he)
      obtain ⟨s, hs, hread⟩ := Option.bind_eq_some_iff.1 hread
      obtain rfl := Option.some.inj hread
      exact ⟨m, hm, Shape.fitsIn_of_ofJson? hs⟩
    refine ⟨fun e he => ?_, Nat.succ_le_succ (Json.membersDepth_le.2 fun m hm => ?_)⟩
    · obtain ⟨m, -, hfit⟩ := hfits e he
      exact hfit.1
    · obtain ⟨e, he, rfl⟩ := List.mem_map.1 hm
      obtain ⟨m, hm, hfit⟩ := hfits e he
      exact hfit.2.trans (Json.membersDepth_le.1 le_rfl m hm)
  · cases h

/-- A table whose counts fit 64 bits is read back from its text, names, shapes and order, exactly
when the text opens no more brackets at once than a reader allows. A table that was read from any
text, in whichever forms, orders and with whichever unknown members, is read back from its own. -/
theorem text_round_trip :
    (∀ t : Table, t.CountsFit → (read? t.write = some t ↔ t.toJson.depth ≤ Json.nestingLimit)) ∧
      ∀ (text : String) (t : Table), read? text = some t → read? t.write = some t := by
  refine ⟨fun t hcounts => ?_, fun text t hread => ?_⟩
  · rw [read?_write_eq hcounts]
    simp
  · obtain ⟨v, hv, hread⟩ := Option.bind_eq_some_iff.1 hread
    obtain ⟨hcounts, hdepth⟩ := fits_of_ofJson? hread
    rw [read?_write_eq hcounts, if_pos (hdepth.trans (Json.depth_le_of_read? hv))]

/-- A struct with a negative zid and a name that has to be escaped, and an array of the largest
size. -/
def points : Table where
  entries := [
    ("P", .struct { name := "P", skipCount := 3 }
      [.mk { zid := -7, name := "x\n\"", omitEmpty := true } (.ofKind .int64)]),
    ("Q", .array { size := "N", resolved := some 18446744073709551615 } (.ptr (.ident "P")))]
  distinct := by decide

/-- A document with members in another order, an unknown one among them, and a shape in the form
of a list. -/
def rearranged : Json :=
  .obj [("Q", .obj [("new", .arr []), ("pointee", .arr [.int 5, .str "bool"]),
    ("shape", .str "ptr")])]

/-- The table `points` is read back from its text, and the table of the document `rearranged` from
its own. -/
theorem text_round_trip_points :
    (points.CountsFit ∧ read? points.write = some points) ∧
      read? rearranged.compact = some ⟨[("Q", .ptr (.ofKind .bool))], by decide⟩ ∧
      read? (write ⟨[("Q", .ptr (.ofKind .bool))], by decide⟩) =
        some ⟨[("Q", .ptr (.ofKind .bool))], by decide⟩ := by
  have hcounts : points.CountsFit := by
    simp [points, CountsFit, Shape.Everywhere, Shape.EverywhereIn, Shape.CountsFit, Shape.ofKind,
      Shape.ident, UInt64.size]
  have hdepth : points.toJson.depth ≤ Json.nestingLimit := by decide
  have hexact : rearranged.Exact := by
    have hlist : (Json.arr [.int 5, .str "bool"]).Exact :=
      .arr (List.forall_mem_cons.2 ⟨Json.exact_toInt 5, by simp⟩)
    have hnew : (Json.arr []).Exact := .arr (by simp)
    simp [rearranged, hlist, hnew]
  have hread : read? rearranged.compact = some ⟨[("Q", .ptr (.ofKind .bool))], by decide⟩ := by
    have hshallow : rearranged.depth ≤ Json.nestingLimit := by decide
    rw [read?, Json.read?_compact hexact, if_pos hshallow]
    rfl
  exact ⟨⟨hcounts, (text_round_trip.1 points hcounts).2 hdepth⟩, hread,
    text_round_trip.2 _ _ hread⟩

end Table

end Packwright
