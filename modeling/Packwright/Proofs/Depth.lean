import Packwright.Proofs.Format

/-
  The depth of an encoding. `Unrolls.ne_tooDeep` bounds the depth that a recursion over positions
  can need before it gives a result: the value shrinks at every container, and between two
  containers every identity is entered at most once. `Unrolls.depthBudget`: the encoder's own budget
  is that deep, so its results are those at any depth that gives one.
-/

namespace Packwright

/-- The name that a shape leads to by pointers and an identifier alone. -/
def Shape.leadsTo? : Shape → Option String
  | ptr pointee => leadsTo? pointee
  | base info => if info.kind = .identifier then some (info.typeName.getD "") else none
  | _ => none

namespace Format

theorem height_of_get? {t : Table} {name : String} {s : Shape} (h : t.get? name = some s) :
    s.height ≤ t.height := by
  have hm : (name, s) ∈ t.entries := Assoc.mem_of_get? h
  unfold Table.height
  generalize t.entries = entries at hm
  induction entries with
  | nil => simp at hm
  | cons e rest ih =>
    rcases List.mem_cons.1 hm with rfl | hm
    · simp only [List.foldr_cons]; omega
    · have := ih hm
      simp only [List.foldr_cons]; omega

theorem mem_names_of_get? {t : Table} {name : String} {s : Shape} (h : t.get? name = some s) :
    name ∈ t.names :=
  List.mem_map.2 ⟨(name, s), Assoc.mem_of_get? h, rfl⟩

/-- From a position to a child the value shrinks, or a pointer or an identifier is followed. -/
theorem Child.cases_height {t : Table} {s s' : Shape} {v v' : Value} (h : Child t s v s' v') :
    (v'.height < v.height ∧ s'.height ≤ max s.height t.height) ∨ (v' = v ∧ s = .ptr s') ∨
      (v' = v ∧ ∃ name, s.leadsTo? = some name ∧ t.get? name = some s') := by
  cases h with
  | field hlive hheld =>
    have hf := Shape.height_le_heights (List.mem_filter.1 hlive).1
    have hw : v'.height ≤ _ := Value.height_le_fieldHeights (Assoc.mem_of_get? hheld)
    refine Or.inl ⟨?_, ?_⟩
    · simp only [Value.height]; omega
    · simp only [Shape.height]; omega
  | entry hmem =>
    have hw := (Value.height_le_entryHeights hmem).2
    refine Or.inl ⟨?_, ?_⟩
    · simp only [Value.height]; omega
    · simp only [Shape.height]; omega
  | element hmem =>
    have hw := Value.height_le_heights hmem
    refine Or.inl ⟨?_, ?_⟩
    · simp only [Value.height]; omega
    · simp only [Shape.height]; omega
  | item hmem =>
    have hw := Value.height_le_heights hmem
    refine Or.inl ⟨?_, ?_⟩
    · simp only [Value.height]; omega
    · simp only [Shape.height]; omega
  | pointee hne => exact Or.inr (Or.inl ⟨rfl, rfl⟩)
  | target hkind hget => exact Or.inr (Or.inr ⟨rfl, _, if_pos hkind, hget⟩)

namespace Unrolls

variable {α : Type} {t : Table} {run : Nat → Shape → Value → Except Fault α}

theorem exists_least {d : Nat} {s : Shape} {v : Value} (h : run d s v ≠ .error .tooDeep) :
    ∃ d' ≤ d, run d' s v ≠ .error .tooDeep ∧ ∀ d'' < d', run d'' s v = .error .tooDeep := by
  induction d using Nat.strongRecOn with
  | _ d ih =>
    by_cases hd : ∃ d' < d, run d' s v ≠ .error .tooDeep
    · obtain ⟨d', hlt, hd'⟩ := hd
      obtain ⟨k, hk, hres⟩ := ih d' hlt hd'
      exact ⟨k, by omega, hres⟩
    · refine ⟨d, Nat.le_refl d, h, fun d'' hlt => ?_⟩
      exact Classical.byContradiction fun hne => hd ⟨d'', hlt, hne⟩

/-- Two results that were reached are the same. -/
theorem unique (hrun : Unrolls t run) {d d' : Nat} {s : Shape} {v : Value}
    (h : run d s v ≠ .error .tooDeep) (h' : run d' s v ≠ .error .tooDeep) :
    run d s v = run d' s v := by
  rw [← hrun.mono (Nat.le_max_left d d') h, hrun.mono (Nat.le_max_right d d') h']

/-- Enough depth for a recursion that ends. The value shrinks at every container; in between only
pointers and identifiers are followed, and an identity that was entered before with the same value
(`seen`) would be entered for ever. -/
theorem ne_tooDeep (hrun : Unrolls t run) {m : Nat} (hm : t.height ≤ m) {d : Nat}
    {s : Shape} {v : Value} {seen : List String}
    (h : run d s v ≠ .error .tooDeep)
    (hleast : ∀ d' < d, run d' s v = .error .tooDeep)
    (hs : s.height ≤ m) (hnodup : seen.Nodup) (hnames : seen ⊆ t.names)
    (hseen : ∀ name ∈ seen, ∀ r, t.get? name = some r → ∀ d' < d,
      run d' r v = .error .tooDeep) :
    run (v.height * ((t.size + 1) * m) + (t.size - seen.length) * m + s.height) s v ≠
      .error .tooDeep := by
  induction d using Nat.strongRecOn generalizing s v seen with
  | _ d ih =>
    obtain _ | d := d
    · exact absurd (hrun.cut s v) h
    obtain ⟨k, hk⟩ : ∃ k, s.height = k + 1 := ⟨s.height - 1, by have := s.height_pos; omega⟩
    rw [hk, ← Nat.add_assoc]
    -- it is enough that every child is settled with one level less
    suffices hchild : ∀ s' v', Child t s v s' v' → run d s' v' ≠ .error .tooDeep →
        ∃ k' ≤ v.height * ((t.size + 1) * m) + (t.size - seen.length) * m + k,
          run k' s' v' ≠ .error .tooDeep by
      have hb : ∀ s' v', Child t s v s' v' → Below (run d s' v')
          (run (v.height * ((t.size + 1) * m) + (t.size - seen.length) * m + k) s' v') := by
        intro s' v' hc
        by_cases hd : run d s' v' = .error .tooDeep
        · exact Or.inl hd
        · obtain ⟨k', hle, hk'⟩ := hchild s' v' hc hd
          rw [hrun.mono hle hk']
          exact Or.inr (hrun.unique hd hk')
      rw [(hrun.step hb).eq_of_ne h]
      exact h
    intro s' v' hc hd
    obtain ⟨d', hle, hd', hleast'⟩ := exists_least hd
    rcases hc.cases_height with ⟨hv', hs'⟩ | ⟨rfl, rfl⟩ | ⟨rfl, name, -, hget⟩
    · refine ⟨_, ?_, ih d' (by omega) hd' hleast' (by omega) List.nodup_nil (List.nil_subset _)
        (by simp)⟩
      have h₁ : (v'.height + 1) * ((t.size + 1) * m) ≤ v.height * ((t.size + 1) * m) :=
        Nat.mul_le_mul_right _ hv'
      rw [Nat.add_one_mul, Nat.add_one_mul t.size] at h₁
      simp only [List.length_nil, Nat.sub_zero]
      rw [Nat.add_one_mul t.size]
      omega
    · simp only [Shape.height] at hk hs
      obtain rfl : s'.height = k := by omega
      exact ⟨_, Nat.le_refl _, ih d' (by omega) hd' hleast' (by omega) hnodup hnames
        fun name hn r hr d'' hlt => hseen name hn r hr d'' (by omega)⟩
    · have hnew : name ∉ seen := fun hin => hd' (hseen name hin s' hget d' (by omega))
      have hsub : name :: seen ⊆ t.names :=
        List.cons_subset.2 ⟨mem_names_of_get? hget, hnames⟩
      have hcons : (name :: seen).Nodup := List.nodup_cons.2 ⟨hnew, hnodup⟩
      have hlen : (name :: seen).length ≤ t.size := by
        have := hcons.length_le_of_subset hsub
        rwa [Table.names, Assoc.names, List.length_map] at this
      have hs' := height_of_get? hget
      refine ⟨_, ?_, ih d' (by omega) hd' hleast' (by omega) hcons hsub ?_⟩
      · obtain ⟨j, hj⟩ : ∃ j, t.size - seen.length = j + 1 :=
          ⟨t.size - seen.length - 1, by simp only [List.length_cons] at hlen; omega⟩
        have hj' : t.size - (name :: seen).length = j := by simp only [List.length_cons]; omega
        rw [hj, hj', Nat.add_one_mul j]
        omega
      · intro n hn r hr d'' hlt
        rcases List.mem_cons.1 hn with rfl | hn
        · obtain rfl := Option.some.inj (hget.symm.trans hr)
          exact hleast' d'' hlt
        · exact hseen n hn r hr d'' (by omega)

/-- The encoder's budget is enough for every recursion that ends. -/
theorem depthBudget {e : Encoder} {run : Nat → Shape → Value → Except Fault α}
    (hrun : Unrolls e.table run) {d : Nat} {s : Shape} {v : Value}
    (h : run d s v ≠ .error .tooDeep) : run (e.depthBudget s v) s v = run d s v := by
  obtain ⟨d', -, hd', hleast⟩ := exists_least h
  have hne := hrun.ne_tooDeep (Nat.le_max_right s.height e.table.height) hd' hleast
    (Nat.le_max_left _ _) List.nodup_nil (List.nil_subset _) (by simp)
  have hle : v.height * ((e.table.size + 1) * max s.height e.table.height) +
      (e.table.size - ([] : List String).length) * max s.height e.table.height + s.height ≤
        e.depthBudget s v := by
    have h₁ : (v.height + 1) * ((e.table.size + 1) * max s.height e.table.height) ≤
        (v.height + 1) * ((e.table.size + 1) * (max s.height e.table.height + 1)) :=
      Nat.mul_le_mul_left _ (Nat.mul_le_mul_left _ (Nat.le_succ _))
    rw [Nat.add_one_mul v.height, Nat.add_one_mul e.table.size] at h₁
    simp only [Encoder.depthBudget, List.length_nil, Nat.sub_zero]
    rw [Nat.add_one_mul e.table.size]
    omega
  rw [hrun.mono hle hne]
  exact hrun.unique hne h

end Unrolls

theorem bytes_depthBudget {e : Encoder} {d : Nat} {s : Shape} {v : Value}
    (h : bytes e.table e.protocol d s v ≠ .error .tooDeep) :
    bytes e.table e.protocol (e.depthBudget s v) s v = bytes e.table e.protocol d s v :=
  (unrolls_bytes e.table e.protocol).depthBudget h

end Format

end Packwright
