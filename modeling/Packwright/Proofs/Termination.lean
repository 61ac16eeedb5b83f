import Mathlib.Data.Finset.Card
import Mathlib.Logic.Relation
import Packwright.Proofs.Faults

/-
  When an encoding has an end. At a container or a field the value shrinks; in between pointers and
  identifiers keep it and may lead to any identity. A table in which an identity leads back to
  itself that way is circular. Without such a circle `rank` shrinks from every position to its
  children, so that every encoding ends, with bytes or with a fault of some position
  (`bytes_ne_tooDeep`). In a circle each step leads to another position of the circle with the same
  value, and no depth is enough (`shape_eq_tooDeep`).
-/

namespace Packwright

namespace Table

/-- An identity leads to a name by pointers and an identifier alone. -/
def Refers (t : Table) (a b : String) : Prop :=
  ∃ s, t.get? a = some s ∧ s.leadsTo? = some b

/-- An identity leads back to itself by pointers and identifiers alone. -/
def Circular (t : Table) (name : String) : Prop := Relation.TransGen t.Refers name name

end Table

namespace Format

/-! ## Without circles -/

open scoped Classical in
/-- The identities that are entered before the value shrinks. -/
noncomputable def ahead (t : Table) (s : Shape) : Finset String :=
  t.names.toFinset.filter fun b =>
    ∃ a, s.leadsTo? = some a ∧ Relation.ReflTransGen t.Refers a b

theorem mem_ahead {t : Table} {s : Shape} {b : String} :
    b ∈ ahead t s ↔
      b ∈ t.names ∧ ∃ a, s.leadsTo? = some a ∧ Relation.ReflTransGen t.Refers a b := by
  simp [ahead]

theorem card_ahead_le (t : Table) (s : Shape) : (ahead t s).card ≤ t.size := by
  have hsub : ahead t s ⊆ t.names.toFinset := fun b hb => List.mem_toFinset.2 (mem_ahead.1 hb).1
  calc (ahead t s).card ≤ t.names.toFinset.card := Finset.card_le_card hsub
    _ ≤ t.names.length := List.toFinset_card_le _
    _ = t.size := by rw [Table.names, Assoc.names, List.length_map, Table.size]

/-- An identity that is entered is not ahead any more, unless it is circular. -/
theorem card_ahead_lt {t : Table} {s target : Shape} {name : String}
    (hname : ¬t.Circular name) (hlead : s.leadsTo? = some name)
    (hget : t.get? name = some target) : (ahead t target).card < (ahead t s).card := by
  have hrefers : ∀ b, target.leadsTo? = some b → t.Refers name b := fun b hb => ⟨target, hget, hb⟩
  apply Finset.card_lt_card
  rw [Finset.ssubset_iff_of_subset]
  · refine ⟨name, mem_ahead.2 ⟨mem_names_of_get? hget, name, hlead, .refl⟩, fun hmem => ?_⟩
    obtain ⟨-, a, ha, hreach⟩ := mem_ahead.1 hmem
    exact hname (Relation.TransGen.head' (hrefers a ha) hreach)
  · intro b hb
    obtain ⟨hnames, a, ha, hreach⟩ := mem_ahead.1 hb
    exact mem_ahead.2 ⟨hnames, name, hlead, .head (hrefers a ha) hreach⟩

/-- What is left to do at a position: the levels of the value, then the identities ahead, then the
levels of the shape. No shape has more than `m` levels. -/
noncomputable def rank (t : Table) (m : Nat) (s : Shape) (v : Value) : Nat :=
  v.height * ((t.size + 1) * (m + 1)) + (ahead t s).card * (m + 1) + s.height

theorem rank_child {t : Table} (hacyclic : ∀ name, ¬t.Circular name) {m : Nat}
    (hm : t.height ≤ m) {s s' : Shape} {v v' : Value} (hs : s.height ≤ m)
    (h : Child t s v s' v') : s'.height ≤ m ∧ rank t m s' v' < rank t m s v := by
  unfold rank
  rcases h.cases_height with ⟨hv, hs'⟩ | ⟨rfl, rfl⟩ | ⟨rfl, name, hlead, hget⟩
  · -- the value shrinks, and whatever the new shape leads to weighs less than one of its levels
    have hlevel : (v'.height + 1) * ((t.size + 1) * (m + 1)) ≤
        v.height * ((t.size + 1) * (m + 1)) := Nat.mul_le_mul_right _ hv
    have hahead : (ahead t s').card * (m + 1) ≤ t.size * (m + 1) :=
      Nat.mul_le_mul_right _ (card_ahead_le t s')
    rw [Nat.add_one_mul, Nat.add_one_mul t.size] at hlevel
    rw [Nat.add_one_mul t.size]
    omega
  · -- a pointer leads where its pointee does
    have hsame : ahead t (.ptr s') = ahead t s' := rfl
    simp only [Shape.height] at hs ⊢
    rw [hsame]
    omega
  · have hheight := height_of_get? hget
    have hahead : ((ahead t s').card + 1) * (m + 1) ≤ (ahead t s).card * (m + 1) :=
      Nat.mul_le_mul_right _ (card_ahead_lt (hacyclic name) hlead hget)
    rw [Nat.add_one_mul] at hahead
    omega

/-- More depth than the rank of a position is enough for its encoding. -/
theorem bytes_ne_tooDeep {t : Table} (hacyclic : ∀ name, ¬t.Circular name) (p : Protocol)
    {m : Nat} (hm : t.height ≤ m) {depth : Nat} {s : Shape} {v : Value} (hs : s.height ≤ m)
    (hdepth : rank t m s v < depth) : bytes t p depth s v ≠ .error .tooDeep := by
  induction depth generalizing s v with
  | zero => exact absurd hdepth (Nat.not_lt_zero _)
  | succ depth ih =>
    intro hdeep
    rcases node_eq_error hdeep with hown | ⟨s', v', hchild, hpart⟩
    · rcases hown.reported_or_crowded with ⟨cause, hcause⟩ | ⟨hover, -⟩
      · cases hcause
      · cases hover
    · obtain ⟨hs', hrank⟩ := rank_child hacyclic hm hs hchild
      exact ih hs' (by omega) hpart

end Format

namespace Encoder

/-- Over a final table without circles an encoding ends with bytes or an error, unless some struct
on the way has too many fields. -/
theorem encodeShape_ends {e : Encoder} (ht : e.table.IsFinal)
    (hacyclic : ∀ name, ¬e.table.Circular name) {s : Shape} (hs : s.IsFinal) (v : Value) :
    (∃ bytes, e.encodeShape s v = .ok bytes) ∨
      (∃ cause, e.encodeShape s v = .error (.error cause)) ∨
      e.encodeShape s v = .error .overflow ∧ Format.Crowded e.table s v := by
  have hne := Format.bytes_ne_tooDeep hacyclic e.protocol
    (Nat.le_max_right s.height e.table.height) (v := v) (Nat.le_max_left s.height e.table.height)
    (Nat.lt_succ_self _)
  rw [encodeShape_eq_of_bytes e ht hs hne]
  revert hne
  generalize hrun : Format.bytes e.table e.protocol _ s v = r
  intro hne
  cases r with
  | ok bytes => exact Or.inl ⟨bytes, rfl⟩
  | error fault =>
    rcases Format.bytes_eq_error hrun with rfl | ⟨s', v', hreach, hown⟩
    · exact absurd rfl hne
    · rcases hown.reported_or_crowded with ⟨cause, rfl⟩ | ⟨rfl, info, fields, rfl, hmany⟩
      · exact Or.inr (Or.inl ⟨cause, rfl⟩)
      · exact Or.inr (Or.inr ⟨rfl, info, fields, v', hreach, hmany⟩)

/-- Over a final table without circles some depth of recursion is enough: from there on every
depth adds the same bytes, or fails in the same way, whatever was written before. -/
theorem exists_depth {e : Encoder} (ht : e.table.IsFinal)
    (hacyclic : ∀ name, ¬e.table.Circular name) {s : Shape} (hs : s.IsFinal) (v : Value) :
    ∃ depth, ∀ deep ≥ depth, ∀ o, Appends o (e.shape deep s v o) (e.encodeShape s v) := by
  refine ⟨Format.rank e.table (max s.height e.table.height) s v + 1, fun deep hdeep o => ?_⟩
  have hne : Format.bytes e.table e.protocol deep s v ≠ .error .tooDeep :=
    Format.bytes_ne_tooDeep hacyclic e.protocol (Nat.le_max_right s.height e.table.height)
      (Nat.le_max_left s.height e.table.height) hdeep
  rw [encodeShape_eq_of_bytes e ht hs hne]
  exact appends_shape e ht deep s v o hs

/-! ## In a circle -/

/-- A position from which pointers and identifiers lead into a circle. -/
def Trapped (t : Table) (s : Shape) : Prop := ∃ name, s.leadsTo? = some name ∧ t.Circular name

/-- An identity of a circle is found in the table, and leads on in the circle. -/
theorem trapped_of_circular {t : Table} {name : String} (h : t.Circular name) :
    ∃ s, t.get? name = some s ∧ Trapped t s := by
  obtain ⟨b, ⟨s, hget, hlead⟩, hback⟩ := Relation.TransGen.head'_iff.1 h
  exact ⟨s, hget, b, hlead, .tail' hback ⟨s, hget, hlead⟩⟩

/-- In a circle no depth of recursion is enough, unless the value is nil. -/
theorem shape_eq_tooDeep (e : Encoder) {s : Shape} (hs : Trapped e.table s) {v : Value}
    (hv : v ≠ .nil) (depth : Nat) (o : Output) : e.shape depth s v o = .error .tooDeep := by
  -- each level is the next position of the circle, with the same value
  induction depth generalizing s o with
  | zero => rfl
  | succ depth ih =>
    obtain ⟨name, hlead, hcircle⟩ := hs
    cases s with
    | ptr pointee =>
      have hpointee : e.shape (depth + 1) (.ptr pointee) v o = e.shape depth pointee v o := by
        cases v with
        | nil => exact absurd rfl hv
        | _ => rfl
      rw [hpointee]
      exact ih (s := pointee) ⟨name, hlead, hcircle⟩ o
    | base info =>
      unfold Shape.leadsTo? at hlead
      split at hlead
      · rename_i hnamed
        obtain rfl := Option.some.inj hlead
        obtain ⟨target, hget, htarget⟩ := trapped_of_circular hcircle
        have hstep : e.shape (depth + 1) (.base info) v o = e.shape depth target v o.flush := by
          simp only [shape, if_pos hnamed, hget]
        rw [hstep]
        exact ih htarget o.flush
      · cases hlead
    | struct info fields => cases hlead
    | map key value => cases hlead
    | slice element => cases hlead
    | array info element => cases hlead

/-- Over a finalized table every encoding ends, with bytes or with an error, if no identity leads
back to itself by pointers and identifiers alone; identities may refer to each other through
containers and fields. An identity that does lead back to itself has no encoding of any value but
nil: no depth of recursion is enough. -/
theorem encode_ends_unless_circular (d : Directives) (raw : Table) (e : Encoder)
    (he : e.table = (Pipeline.standard d).finalizeAll raw) :
    ((∀ name, ¬e.table.Circular name) → ∀ name v,
      ((∃ bytes, e.encode name v = .ok bytes) ∨
        (∃ cause, e.encode name v = .error (.error cause)) ∨
        e.encode name v = .error .overflow ∧
          ∃ s, e.table.get? name = some s ∧ Format.Crowded e.table s v) ∧
      ∀ s, e.table.get? name = some s → ∃ depth, ∀ deep ≥ depth, ∀ o,
        Appends o (e.shape deep s v o) (e.encode name v)) ∧
    ∀ name, e.table.Circular name → ∀ v, v ≠ .nil →
      e.encode name v = .error .tooDeep ∧
        ∃ s, e.table.get? name = some s ∧ ∀ depth o, e.shape depth s v o = .error .tooDeep := by
  have ht : e.table.IsFinal := he ▸ Table.isFinal_finalizeAll d raw
  refine ⟨fun hacyclic name v => ?_, fun name hcircle v hv => ?_⟩
  · cases hget : e.table.get? name with
    | none =>
      refine ⟨Or.inr (Or.inl ⟨.unknownIdentity name, ?_⟩), fun s hs => nomatch hs⟩
      rw [encode, hget]
    | some s =>
      have hs := (ht name s hget).1
      rw [encode_eq_encodeShape e hget v]
      refine ⟨?_, fun s' hs' => ?_⟩
      · rcases encodeShape_ends ht hacyclic hs v with hok | herror | ⟨hover, hcrowd⟩
        · exact Or.inl hok
        · exact Or.inr (Or.inl herror)
        · exact Or.inr (Or.inr ⟨hover, s, rfl, hcrowd⟩)
      · obtain rfl := Option.some.inj hs'
        exact exists_depth ht hacyclic hs v
  · obtain ⟨s, hget, htrapped⟩ := trapped_of_circular hcircle
    have hdeep := shape_eq_tooDeep e htrapped hv
    refine ⟨?_, s, hget, hdeep⟩
    rw [encode_eq_encodeShape e hget, encodeShape, hdeep]
    rfl

/-- Trees that refer to links and links that refer to trees, but not by pointers alone. -/
def grove : Encoder where
  table := (Pipeline.standard {}).finalizeAll (Table.ofList [
    ("Tree", .struct { name := "Tree" } [
      .mk { zid := 0, name := "left" } (.ptr (.ident "Tree")),
      .mk { zid := 1, name := "links" } (.slice (.ident "Link"))]),
    ("Link", .ptr (.ident "Tree"))])
  protocol := .fast
  fuse := true

/-- Two pointers that refer to each other. -/
def ring : Encoder where
  table := (Pipeline.standard {}).finalizeAll (Table.ofList [
    ("Day", .ptr (.ident "Night")), ("Night", .ptr (.ptr (.ident "Day")))])
  protocol := .msgp2
  fuse := false

theorem refers_grove {a b : String} (h : grove.table.Refers a b) : a = "Link" ∧ b = "Tree" := by
  obtain ⟨s, hget, hlead⟩ := h
  have hmem := Assoc.mem_of_get? hget
  change (a, s) ∈ [("Tree", _), ("Link", _)] at hmem
  rcases List.mem_cons.1 hmem with hhere | hmem
  · obtain ⟨rfl, rfl⟩ := Prod.mk.inj hhere
    cases hlead
  · obtain ⟨rfl, rfl⟩ := Prod.mk.inj (List.mem_singleton.1 hmem)
    exact ⟨rfl, (Option.some.inj hlead).symm⟩

theorem encode_grove_and_ring :
    (∀ v, grove.encode "Link" v ≠ .error .tooDeep) ∧
      ring.table.Circular "Night" ∧ ring.encode "Night" (.bool true) = .error .tooDeep := by
  have hacyclic : ∀ name, ¬grove.table.Circular name := by
    intro name hcircle
    obtain ⟨b, hstep, hback⟩ := Relation.TransGen.head'_iff.1 hcircle
    obtain ⟨rfl, rfl⟩ := refers_grove hstep
    rcases Relation.ReflTransGen.cases_head hback with heq | ⟨c, hnext, -⟩
    · exact absurd heq (by decide)
    · exact absurd (refers_grove hnext).1 (by decide)
  have hcircle : ring.table.Circular "Night" :=
    .tail (.single ⟨_, rfl, rfl⟩) ⟨.ptr (.ident "Night"), rfl, rfl⟩
  refine ⟨fun v => ?_, hcircle, ?_⟩
  · rcases ((encode_ends_unless_circular {} _ grove rfl).1 hacyclic "Link" v).1 with
      ⟨bytes, hok⟩ | ⟨cause, herror⟩ | ⟨hover, -⟩
    · simp [hok]
    · simp [herror]
    · simp [hover]
  · exact ((encode_ends_unless_circular {} _ ring rfl).2 "Night" hcircle (.bool true) nofun).1

end Encoder

end Packwright
