import Packwright.Assoc
import Packwright.Shape

/-
  Tables of identities: named shapes in the order of their first declaration, no name twice.
-/

namespace Packwright

/-- A table of identities. -/
structure Table where
  entries : List (String × Shape)
  distinct : (Assoc.names entries).Nodup

namespace Table

/-- The table without identities. -/
def empty : Table := ⟨[], List.nodup_nil⟩

/-- The names of the identities, in order. -/
def names (t : Table) : List String := Assoc.names t.entries

/-- The number of identities. -/
def size (t : Table) : Nat := t.entries.length

/-- The shape of an identity. -/
def get? (t : Table) (name : String) : Option Shape := Assoc.get? t.entries name

/-- Declares an identity; a name that is declared again keeps its place. -/
def insert (t : Table) (name : String) (s : Shape) : Table :=
  ⟨Assoc.insert t.entries name s, Assoc.nodup_names_insert t.distinct name s⟩

/-- The table of a list of declarations. -/
def ofList (entries : List (String × Shape)) : Table :=
  ⟨Assoc.ofList entries, Assoc.nodup_names_ofList entries⟩

/-- The largest number of levels of a shape in the table. -/
def height (t : Table) : Nat :=
  t.entries.foldr (fun e h => max e.2.height h) 0

theorem names_filterMap_sublist (f : String → Shape → Option Shape)
    (entries : List (String × Shape)) :
    (Assoc.names (entries.filterMap fun e => (f e.1 e.2).map (Prod.mk e.1))).Sublist
      (Assoc.names entries) := by
  induction entries with
  | nil => exact List.Sublist.refl _
  | cons e rest ih =>
    cases h : f e.1 e.2 with
    | none => simpa [h] using ih.cons e.1
    | some s => simpa [h] using ih.cons_cons e.1

/-- Changes the shape of every identity, or drops it. -/
def filterMap (t : Table) (f : String → Shape → Option Shape) : Table :=
  ⟨t.entries.filterMap fun e => (f e.1 e.2).map (Prod.mk e.1),
    (names_filterMap_sublist f t.entries).nodup t.distinct⟩

end Table

end Packwright
