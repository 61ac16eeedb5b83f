/-
  Association lists in insertion order: a name that is inserted again keeps its place and takes
  the new value. Tables of identities, records and named constants are such lists.
-/

namespace Packwright.Assoc

variable {α : Type}

/-- The first entry under a name. -/
def get? : List (String × α) → String → Option α
  | [], _ => none
  | e :: rest, name => if e.1 = name then some e.2 else get? rest name

/-- Replaces the entry under a name where it stands, or adds it at the end. -/
def insert : List (String × α) → String → α → List (String × α)
  | [], name, a => [(name, a)]
  | e :: rest, name, a => if e.1 = name then (name, a) :: rest else e :: insert rest name a

/-- The entries of a list with repetitions: a name keeps its first place and its last value. -/
def ofList (entries : List (String × α)) : List (String × α) :=
  entries.foldl (fun acc e => insert acc e.1 e.2) []

/-- The names, in order. -/
def names (entries : List (String × α)) : List String :=
  entries.map Prod.fst

@[simp] theorem names_nil : names ([] : List (String × α)) = [] := rfl

@[simp] theorem names_cons (e : String × α) (rest : List (String × α)) :
    names (e :: rest) = e.1 :: names rest := rfl

theorem mem_of_get? {entries : List (String × α)} {name : String} {a : α}
    (h : get? entries name = some a) : (name, a) ∈ entries := by
  induction entries with
  | nil => simp [get?] at h
  | cons e rest ih =>
    by_cases he : e.1 = name
    · simp only [get?, he, if_true, Option.some.injEq] at h
      subst h he
      exact List.mem_cons_self
    · simp only [get?, he, if_false] at h
      exact List.mem_cons_of_mem _ (ih h)

theorem mem_names_insert {entries : List (String × α)} {name other : String} {a : α} :
    other ∈ names (insert entries name a) ↔ other = name ∨ other ∈ names entries := by
  induction entries with
  | nil => simp [insert]
  | cons e rest ih =>
    by_cases h : e.1 = name
    · simp only [insert, h, if_true, names_cons, List.mem_cons]
      grind
    · simp only [insert, h, if_false, names_cons, List.mem_cons, ih]
      grind

theorem nodup_names_insert {entries : List (String × α)} (h : (names entries).Nodup)
    (name : String) (a : α) : (names (insert entries name a)).Nodup := by
  induction entries with
  | nil => simp [insert]
  | cons e rest ih =>
    rw [names_cons, List.nodup_cons] at h
    by_cases he : e.1 = name
    · simp only [insert, he, if_true, names_cons, List.nodup_cons]
      exact ⟨he ▸ h.1, h.2⟩
    · simp only [insert, he, if_false, names_cons, List.nodup_cons, mem_names_insert]
      exact ⟨fun hm => hm.elim id h.1, ih h.2⟩

theorem nodup_names_ofList (entries : List (String × α)) : (names (ofList entries)).Nodup := by
  suffices h : ∀ acc : List (String × α), (names acc).Nodup →
      (names (entries.foldl (fun acc e => insert acc e.1 e.2) acc)).Nodup from
    h [] List.nodup_nil
  induction entries with
  | nil => exact fun _ h => h
  | cons e rest ih => exact fun acc h => ih _ (nodup_names_insert h e.1 e.2)

end Packwright.Assoc
