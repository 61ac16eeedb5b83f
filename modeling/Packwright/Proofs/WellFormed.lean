import Packwright.Proofs.Balance
import Packwright.Proofs.Generators
import Packwright.Proofs.Scopes

/-
  Generated functions are well formed: every block that is opened is closed, local names are
  introduced once and mentioned in their scopes alone, flags have indices below their number, and
  a size estimate is a number or else declares its sum with its first statement.
-/

namespace Packwright

/-! ## Names -/

theorem Tally.numbered_nested (n : Nat) :
    Numbered n (n + 1) [(nested n).flags, (nested n).count] :=
  .pair rfl rfl (by decide) n

/-- The flags and the count of the outer struct have no number. -/
theorem Tally.numbered_outer (n : Nat) : Numbered 0 (n + 1) [outer.flags, outer.count] := by
  have hnone : Numbered 0 1 [outer.flags, outer.count] := ⟨by decide, by decide, by decide⟩
  exact hnone.widen (Nat.le_refl _) (Nat.succ_le_succ (Nat.zero_le n))

theorem Head.numbered_items {stem : String} (h : isStem stem = true) (n : Nat) (source : Place) :
    Numbered n (n + 1) ((items ⟨stem, n⟩ source).introduces.map Prod.fst) := .single h n

theorem Head.numbered_entries (n : Nat) (source : Place) :
    Numbered n (n + 1) ((entries n source).introduces.map Prod.fst) :=
  .pair (rfl : isStem "zk" = true) (rfl : isStem "zv" = true) (by decide) n

/-- The names that a variable mentions are in scope. -/
def Var.Known (v : Var) (scope : Scope) : Prop := ∀ m ∈ v.place.mentions, m.In scope

theorem Var.Known.mono {v : Var} {scope scope' : Scope} (h : v.Known scope)
    (hsub : scope ⊆ scope') : v.Known scope' := fun m hm => (h m hm).mono hsub

theorem Var.known_ofLocal (l : Local) (scope : Scope) :
    (Var.ofLocal l).Known ((l.text, 0) :: scope) :=
  List.forall_mem_singleton.2 (.of_mem List.mem_cons_self)

theorem Head.key_in_entries (n : Nat) (source : Place) (scope : Scope) :
    Mention.In ⟨(keyLocal n).text, none⟩ ((entries n source).introduces ++ scope) :=
  .of_mem List.mem_cons_self

theorem Head.value_known_entries (n : Nat) (source : Place) (scope : Scope) :
    (Var.ofLocal (valueLocal n)).Known ((entries n source).introduces ++ scope) :=
  (Var.known_ofLocal _ scope).mono (List.subset_cons_self _ _)

theorem Var.known_receiver (s : Shape) (scope : Scope) : (Var.receiver s).Known scope := by
  cases s <;> exact List.forall_mem_nil _

theorem BaseInfo.mentions_arg (info : BaseInfo) (v : Var) :
    (info.arg v).mentions = v.place.mentions := by
  unfold arg
  repeat' split
  all_goals rfl

theorem Condition.mentions_of? {s : Shape} {v : Var} {test : Condition} (h : of? s v = some test) :
    test.mentions = v.place.mentions := by
  have hoperand : (operand s v).mentions = v.place.mentions := by
    unfold operand
    repeat' split
    · exact BaseInfo.mentions_arg _ v
    all_goals rfl
  unfold of? at h
  split at h
  · cases h
  all_goals
    obtain rfl := Option.some.inj h
    first | exact hoperand | rfl

/-! ## Layouts -/

namespace Layout

variable {p : Protocol} {info : StructInfo} {fields : List Field} {l : Layout}

theorem declared_of_plan (h : plan p info fields = .ok l) : l.declared = fields.length := by
  obtain ⟨live, -, hl⟩ := bind_eq_ok h
  dsimp only at hl
  split at hl
  · split at hl
    · rw [← Except.ok.inj hl]
    · cases hl
  · rw [← Except.ok.inj hl]

/-- Every slot has a flag. -/
theorem index_lt_declared (h : plan p info fields = .ok l) {slot : Slot} (hslot : slot ∈ l.slots) :
    slot.index < l.declared := by
  rw [slots_of_plan h] at hslot
  obtain ⟨x, hx, rfl⟩ := List.mem_map.1 hslot
  rw [declared_of_plan h]
  have hfield := List.mem_zipIdx_iff_getElem?.1 (List.mem_filter.1 hx).1
  exact (List.getElem?_eq_some_iff.1 hfield).1

/-- Fields are left out only where the number of entries is not known beforehand. -/
theorem isDynamic_of_conditional {mode : Mode} {intKeys : Bool} {f : Field} {index : Nat}
    (h : (slotOf mode intKeys f index).conditional = true) : mode.isDynamic = true := by
  cases mode with
  | tuple => cases h
  | static => cases h
  | _ => rfl

end Layout

/-! ## Encoders -/

namespace Marshal

open Code (Sound scopeAfter)

/-- What the lines of an encoder do with local names. -/
def binding : Binding Line where
  mentions
    | .computeTally t => [⟨t.flags, none⟩]
    | .setFlag t index test => ⟨t.flags, some index⟩ :: (test.map Condition.mentions).getD []
    | .decrement t | .giveCount t | .structHeader t _ => [⟨t.count, none⟩]
    | .mapHeader source | .arrayHeader source | .byteArray source | .delegate source =>
      source.mentions
    | .mapKey _ key => [⟨key.text, none⟩]
    | .scalar _ arg => arg.mentions
    | _ => []
  introduces
    | .declareFlags t size => [(t.flags, size)]
    | .computeTally t | .declareCount t _ => [(t.count, 0)]
    | _ => []

/-- Code without local names, after which no more names were drawn. -/
def Nameless (n : Nat) (code : Body) (m : Nat) : Prop :=
  m = n ∧ ∀ scope lo, Sound binding scope lo lo code

/-- Code in a scope, after which the given number of names was drawn. -/
def Scopes (scope : Scope) (lo : Nat) (code : Body) (m : Nat) : Prop :=
  Sound binding scope lo (m + 1) code

theorem scopes_drawName {n : Nat} {α : Type} {f : Nat → Emit α} {Q : α → Nat → Prop}
    (h : RunsFrom Pending.last (n + 1) (f (n + 1)) Q) :
    RunsFrom Pending.last n (drawName >>= f) Q := by
  have hdraw : RunsFrom Pending.last n drawName fun number m => m = n + 1 ∧ number = n + 1 := by
    rintro p number p' rfl hrun
    obtain ⟨rfl, rfl⟩ := Prod.mk.inj (Except.ok.inj hrun)
    exact ⟨rfl, rfl⟩
  exact hdraw.bind_at fun number hnumber => hnumber ▸ h

theorem scopes_flush (n : Nat) : RunsFrom Pending.last n flush (Nameless n) := by
  rintro p code p' rfl hrun
  rw [flush_eq] at hrun
  obtain ⟨rfl, rfl⟩ := Prod.mk.inj (Except.ok.inj hrun)
  refine ⟨rfl, fun scope lo => ?_⟩
  have hliteral : Sound binding scope lo lo [.line (.literal p.fusion.pending)] :=
    .plainLine (List.forall_mem_nil _) rfl (Nat.le_refl _)
  have hnotes : Sound binding scope lo lo [.line (.notes p.notes)] :=
    .plainLine (List.forall_mem_nil _) rfl (Nat.le_refl _)
  split
  · exact .nil (Nat.le_refl _)
  · split
    · exact hliteral
    · exact hnotes.append hliteral

theorem scopes_constant (c : Config) (note : Note) (bytes : Bytes) (n : Nat) :
    RunsFrom Pending.last n (constant c note bytes) (Nameless n) := by
  have hmodify : RunsFrom Pending.last n
      (modify fun p => { p with fusion := p.fusion.append bytes, notes := p.notes ++ [note] })
      fun (_ : PUnit) m => m = n := by
    rintro p a p' rfl hrun
    obtain rfl := (Prod.mk.inj (Except.ok.inj hrun)).2
    rfl
  refine hmodify.bind_same fun _ => ?_
  split
  · exact .pure ⟨rfl, fun _ _ => .nil (Nat.le_refl _)⟩
  · exact scopes_flush _

theorem scopes_dynamic {scope : Scope} {l : Line} (hmentions : ∀ m ∈ binding.mentions l, m.In scope)
    (hintroduces : binding.introduces l = []) (n : Nat) :
    RunsFrom Pending.last n (dynamic l) fun code m =>
      m = n ∧ ∀ lo, Sound binding scope lo lo code := by
  refine (scopes_flush n).bind fun before m hbefore => .pure ⟨hbefore.1, fun lo => ?_⟩
  exact (hbefore.2 scope lo).append (.plainLine hmentions hintroduces (Nat.le_refl _))

/-- A block whose head has names with numbers drawn before. -/
theorem scopes_block (head : Head) {scope : Scope} {lo n : Nat}
    (hmentions : ∀ m ∈ head.mentions, m.In scope)
    (hintroduces : Numbered lo (n + 1) (head.introduces.map Prod.fst)) {body : Emit Body}
    (h : RunsFrom Pending.last n body (Scopes (head.introduces ++ scope) (n + 1))) :
    RunsFrom Pending.last n (block head body) (Scopes scope lo) := by
  refine (scopes_flush n).bind_at fun before hbefore => ?_
  refine h.bind fun inside m hinside => (scopes_flush m).bind_at fun after hafter => ?_
  have hinside := hinside.append (hafter _ _)
  exact .pure ((hbefore scope lo).append (.block hmentions hintroduces hinside))

/-- The flags and the count of a tally are in scope. -/
def FlagsKnown (scope : Scope) (t : Tally) (size : Nat) : Prop :=
  (t.flags, size) ∈ scope ∧ (t.count, 0) ∈ scope

theorem FlagsKnown.flag {scope : Scope} {t : Tally} {size : Nat} (h : FlagsKnown scope t size)
    {index : Nat} (hindex : index < size) : Mention.In ⟨t.flags, some index⟩ scope :=
  ⟨size, h.1, fun i hi => by obtain rfl := Option.some.inj hi; exact hindex⟩

theorem FlagsKnown.count {scope : Scope} {t : Tally} {size : Nat} (h : FlagsKnown scope t size) :
    Mention.In ⟨t.count, none⟩ scope := .of_mem h.2

theorem FlagsKnown.mono {scope scope' : Scope} {t : Tally} {size : Nat}
    (h : FlagsKnown scope t size) (hsub : scope ⊆ scope') : FlagsKnown scope' t size :=
  ⟨hsub h.1, hsub h.2⟩

theorem sound_checks {layout : Layout} {v : Var} {t : Tally} {scope : Scope}
    (hslots : ∀ slot ∈ layout.slots, slot.index < layout.declared) (hv : v.Known scope)
    (ht : FlagsKnown scope t layout.declared) (lo : Nat) :
    Sound binding scope lo lo (checks layout v t) := by
  have hlive : ∀ slot ∈ layout.slots.filter Slot.conditional, slot.index < layout.declared :=
    fun slot hslot => hslots slot (List.mem_filter.1 hslot).1
  unfold checks
  generalize layout.slots.filter Slot.conditional = live at hlive ⊢
  induction live with
  | nil => exact .nil (Nat.le_refl _)
  | cons slot rest ih =>
    obtain ⟨hindex, hrest⟩ := List.forall_mem_cons.1 hlive
    rw [List.flatMap_cons]
    refine Sound.append ?_ (ih hrest)
    have hflag := ht.flag hindex
    split
    · rename_i test htest
      have htested : ∀ m ∈ test.mentions, m.In scope := by
        rw [Condition.mentions_of? htest]
        exact hv
      have hset : Sound binding scope lo lo [.line (.setFlag t slot.index (some test))] :=
        .plainLine (List.forall_mem_cons.2 ⟨hflag, htested⟩) rfl (Nat.le_refl _)
      have hdecrement : Sound binding scope lo lo [.line (.decrement t)] :=
        .plainLine (List.forall_mem_singleton.2 ht.count) rfl (Nat.le_refl _)
      have hblock : Sound binding scope lo lo
          [.block (.ifFlag t slot.index) [.line (.decrement t)]] :=
        .block (List.forall_mem_singleton.2 hflag) (.nil (Nat.le_refl _)) hdecrement
      exact hset.append hblock
    · exact .plainLine (List.forall_mem_singleton.2 hflag) rfl (Nat.le_refl _)

/-- The declarations of flags and count, of which the second line may mention the flags. -/
theorem sound_declarations {scope : Scope} {lo hi : Nat} {first : Body}
    (hfirst : Sound binding scope lo lo first) (size : Nat) {t : Tally} {l : Line}
    (hmentions : ∀ m ∈ binding.mentions l, m = ⟨t.flags, none⟩)
    (hintroduces : binding.introduces l = [(t.count, 0)])
    (hnumbered : Numbered lo hi [t.flags, t.count]) :
    Sound binding scope lo hi (first ++ [.line (.declareFlags t size), .line l]) ∧
      FlagsKnown (scopeAfter binding scope (first ++ [.line (.declareFlags t size), .line l])) t
        size := by
  have hflags : binding.introduces (.declareFlags t size) = [(t.flags, size)] := rfl
  have hnames : Code.introducedAll binding [.line (.declareFlags t size), .line l] =
      [t.flags, t.count] := by
    simp [Code.introducedAll, Code.introduced, hflags, hintroduces]
  have hafter : scopeAfter binding scope (first ++ [.line (.declareFlags t size), .line l]) =
      (t.count, 0) :: (t.flags, size) :: scopeAfter binding scope first := by
    simp [scopeAfter, Code.introduces, hflags, hintroduces]
  refine ⟨hfirst.append ⟨⟨List.forall_mem_nil _, fun m hm => ?_, trivial⟩, hnames ▸ hnumbered⟩, ?_⟩
  · rw [hmentions m hm]
    exact .of_mem List.mem_cons_self
  · rw [hafter]
    exact ⟨List.mem_cons_of_mem _ List.mem_cons_self, List.mem_cons_self⟩

/-- The least number of the names of a struct. Those of the outer one have none. -/
def firstNumber (isTop : Bool) (n : Nat) : Nat := if isTop then 0 else n + 1

theorem scopes_tallyCode {layout : Layout} {v : Var} {scope : Scope}
    (hslots : ∀ slot ∈ layout.slots, slot.index < layout.declared) (hv : v.Known scope)
    (isTop : Bool) (n : Nat) :
    RunsFrom Pending.last n (tallyCode layout v isTop) fun r m =>
      Scopes scope (firstNumber isTop n) r.2 m ∧
        FlagsKnown (scopeAfter binding scope r.2) r.1 layout.declared := by
  refine (scopes_flush n).bind_at fun before hbefore => ?_
  have hintro (lo : Nat) : Sound binding scope lo lo
      (before ++ [.line .blank, .line (.comment "honor the omitempty tags")]) := by
    have hblank : Sound binding scope lo lo [.line .blank] :=
      .plainLine (List.forall_mem_nil _) rfl (Nat.le_refl _)
    exact (hbefore scope lo).append (hblank.append
      (.plainLine (List.forall_mem_nil _) rfl (Nat.le_refl _)))
  cases isTop with
  | true =>
    exact .pure (sound_declarations (hintro 0) layout.declared (l := .computeTally .outer)
      (by simp [binding]) rfl (Tally.numbered_outer n))
  | false =>
    refine scopes_drawName ?_
    obtain ⟨hdeclared, hflags⟩ := sound_declarations (hintro (n + 1)) layout.declared
      (l := .declareCount (.nested (n + 1)) layout.live) (by simp [binding]) rfl
      (Tally.numbered_nested (n + 1))
    have hchecks := sound_checks hslots (hv.mono (Code.subset_scopeAfter _ _)) hflags (n + 2)
    refine .pure ⟨hdeclared.andThen hchecks, ?_⟩
    rw [Code.scopeAfter_append]
    exact hflags.mono (Code.subset_scopeAfter _ _)

theorem scopes_identification (c : Config) (layout : Layout) (n : Nat) :
    RunsFrom Pending.last n (identification c layout) (Nameless n) := by
  unfold identification
  split
  · exact scopes_constant c _ _ n
  · exact .pure ⟨rfl, fun _ _ => .nil (Nat.le_refl _)⟩

theorem scopes_structCode {c : Config} {info : StructInfo} {fields : List Field} {v : Var}
    {scope : Scope} (hv : v.Known scope) (isTop : Bool) {slots : Layout → Tally → Emit Body}
    (hslots : ∀ l t scope' m, Layout.plan c.protocol info fields = .ok l → scope ⊆ scope' →
      (l.mode.isDynamic = true → FlagsKnown scope' t l.declared) →
        RunsFrom Pending.last m (slots l t) (Scopes scope' (m + 1))) (n : Nat) :
    RunsFrom Pending.last n (structCode c info fields v isTop slots)
      (Scopes scope (firstNumber isTop n)) := by
  have hfirst : firstNumber isTop n ≤ n + 1 := by cases isTop <;> simp [firstNumber]
  refine RunsFrom.bind_lift fun l hl => ?_
  have hindex : ∀ slot ∈ l.slots, slot.index < l.declared := fun _ => Layout.index_lt_declared hl
  -- a header that is known beforehand, then the fields without flags
  have hknown (note : Note) (hm : l.mode.isDynamic = false) : RunsFrom Pending.last n (do
      let header ← constant c note (l.header.getD [])
      return header ++ (← slots l .outer)) (Scopes scope (firstNumber isTop n)) := by
    refine (scopes_constant c note _ n).bind_at fun header hheader => ?_
    refine (hslots l .outer scope n hl (List.Subset.refl _) (by simp [hm])).bind
      fun rest j hrest => .pure ?_
    exact ((hheader scope _).append hrest).widen hfirst (Nat.le_refl _)
  split
  · rename_i hm
    exact hknown (.arrayHeader l.live) (by rw [hm]; rfl)
  · rename_i hm
    exact hknown (.mapHeader l.live) (by rw [hm]; rfl)
  · refine (scopes_tallyCode hindex hv isTop n).bind fun r m hr => ?_
    obtain ⟨t, tally⟩ := r
    obtain ⟨htally, hflags⟩ := hr
    refine (scopes_identification c l m).bind_at fun entry hentry => ?_
    refine (hslots l t _ m hl (Code.subset_scopeAfter _ tally) fun _ => hflags).bind
      fun rest k hrest => .pure ?_
    have hheader : Sound binding (scopeAfter binding scope tally) (m + 1) (m + 1)
        [.line (.structHeader t (l.mode == .fast))] :=
      .plainLine (List.forall_mem_singleton.2 hflags.count) rfl (Nat.le_refl _)
    simp only [List.append_assoc]
    exact htally.andThen (hheader.append ((hentry _ _).append hrest))

theorem scopes_slotCode {c : Config} {layout : Layout} {t : Tally} {slot : Slot} {scope : Scope}
    (hflag : slot.conditional = true → Mention.In ⟨t.flags, some slot.index⟩ scope)
    {value : Emit Body} {n : Nat} (h : RunsFrom Pending.last n value (Scopes scope (n + 1))) :
    RunsFrom Pending.last n (slotCode c layout t slot value) (Scopes scope (n + 1)) := by
  by_cases hm : layout.mode = .tuple
  · rwa [slotCode_tuple hm]
  · have hentry : RunsFrom Pending.last n (entryCode c layout slot value)
        (Scopes scope (n + 1)) := by
      refine (scopes_constant c _ _ n).bind_at fun key hkey => ?_
      exact h.bind fun code k hcode => .pure ((hkey scope _).append hcode)
    rw [slotCode_entry hm]
    split
    · rename_i hconditional
      have hmentions : ∀ m ∈ (Head.unlessFlag t slot.index).mentions, m.In scope :=
        List.forall_mem_singleton.2 (hflag hconditional)
      exact scopes_block (.unlessFlag t slot.index) hmentions (.nil (Nat.le_refl _)) hentry
    · exact hentry

theorem scopes_fieldsCode {c : Config} {l : Layout} {t : Tally} {v : Var} {scope : Scope}
    (hv : v.Known scope) (ht : l.mode.isDynamic = true → FlagsKnown scope t l.declared)
    {fields : List Field}
    (h : ∀ f ∈ fields, ∀ (v : Var) n, v.Known scope →
      RunsFrom Pending.last n (shapeCode c f.value v) (Scopes scope (n + 1)))
    {index : Nat} (hindex : index + fields.length ≤ l.declared) (n : Nat) :
    RunsFrom Pending.last n (fieldsCode c l t v fields index) (Scopes scope (n + 1)) := by
  induction fields generalizing index n with
  | nil => exact .pure (.nil (Nat.le_refl _))
  | cons f rest ih =>
    obtain ⟨info, value⟩ := f
    obtain ⟨hvalue, hrest⟩ := List.forall_mem_cons.1 h
    rw [List.length_cons] at hindex
    have hnext : index + 1 + rest.length ≤ l.declared := by omega
    unfold fieldsCode
    split
    · exact ih hrest hnext n
    · refine (scopes_slotCode ?_ (hvalue (v.field info.name) n hv)).bind fun here m hhere => ?_
      · intro hconditional
        exact (ht (Layout.isDynamic_of_conditional hconditional)).flag
          (show index < l.declared by omega)
      · exact (ih hrest hnext m).bind fun code k hcode => .pure (hhere.append hcode)

/-- A loop over elements, whose name has the number that was drawn last. -/
theorem scopes_items {c : Config} {element : Shape}
    (h : ∀ {v : Var} {scope : Scope}, v.Known scope → ∀ n,
      RunsFrom Pending.last n (shapeCode c element v) (Scopes scope (n + 1)))
    {v : Var} {scope : Scope} (hv : v.Known scope) (n : Nat) :
    RunsFrom Pending.last n
      (block (.items ⟨"za", n⟩ v.place) (shapeCode c element (.ofLocal ⟨"za", n⟩)))
      (Scopes scope n) :=
  scopes_block (.items ⟨"za", n⟩ v.place) hv (Head.numbered_items rfl n v.place)
    (h (Var.known_ofLocal _ scope) n)

/-- The code of a shape mentions the names in its scope and its own, which have numbers of their
own. -/
theorem scopes_shapeCode (c : Config) (s : Shape) {v : Var} {scope : Scope} (hv : v.Known scope)
    (n : Nat) : RunsFrom Pending.last n (shapeCode c s v) (Scopes scope (n + 1)) := by
  induction s generalizing v scope n with
  | struct info fields ih =>
    refine scopes_structCode hv false (fun l t scope' m hl hsub ht => ?_) n
    exact scopes_fieldsCode (hv.mono hsub) ht (fun f hf v n hv => ih f hf hv n)
      (by rw [Layout.declared_of_plan hl, Nat.zero_add]) m
  | map key value ih =>
    refine scopes_drawName ?_
    refine (scopes_dynamic (l := .mapHeader v.place) hv rfl _).bind_at fun header hheader => ?_
    have hintroduces := Head.numbered_entries (n + 1) v.place
    refine (scopes_block (.entries (n + 1) v.place) hv hintroduces ?_).bind
      fun loop m hloop => .pure ((hheader _).append hloop)
    have hkey := Head.key_in_entries (n + 1) v.place scope
    have hvalue := Head.value_known_entries (n + 1) v.place scope
    refine (scopes_dynamic (l := .mapKey key (keyLocal (n + 1)))
      (List.forall_mem_singleton.2 hkey) rfl _).bind_at fun code hcode => ?_
    exact (ih hvalue (n + 1)).bind fun rest m hrest => .pure ((hcode _).append hrest)
  | slice element ih =>
    refine scopes_drawName ?_
    refine (scopes_dynamic (l := .arrayHeader v.place) hv rfl _).bind_at fun header hheader => ?_
    exact (scopes_items ih hv (n + 1)).bind fun loop m hloop => .pure ((hheader _).append hloop)
  | array info element ih =>
    refine RunsFrom.bind_lift fun size _ => ?_
    split
    · exact (scopes_dynamic (l := .byteArray v.place) hv rfl n).imp
        fun code k hcode => hcode.1 ▸ hcode.2 _
    · refine (scopes_constant c _ _ n).bind_at fun header hheader => scopes_drawName ?_
      exact (scopes_items ih hv (n + 1)).bind fun loop m hloop =>
        .pure ((hheader _ _).append hloop)
  | ptr pointee ih =>
    refine scopes_drawName ?_
    refine (scopes_flush _).bind_at fun before hbefore => ?_
    refine (ih (Var.known_ofLocal ⟨"zp", n + 1⟩ scope) (n + 1)).bind fun value m hvalue => ?_
    refine (scopes_flush m).bind_at fun after hafter => ?_
    refine (scopes_constant c .nil _ m).bind_at fun absent habsent => ?_
    refine (scopes_flush m).bind_at fun rest hrest => .pure ?_
    have hname : Numbered (n + 1) (n + 2) [(Local.mk "zp" (n + 1)).text] :=
      .single (rfl : isStem "zp" = true) (n + 1)
    exact (hbefore scope _).append (.optional hv hname (hvalue.append (hafter _ _))
      ((habsent scope _).append (hrest scope _)))
  | base info =>
    have hdynamic (l : Line) (hl : ∀ m ∈ binding.mentions l, m.In scope)
        (hplain : binding.introduces l = []) :
        RunsFrom Pending.last n (dynamic l) (Scopes scope (n + 1)) :=
      (scopes_dynamic hl hplain n).imp fun code k hcode => hcode.1 ▸ hcode.2 _
    unfold shapeCode scalarCode
    split
    · exact hdynamic _ hv rfl
    · exact hdynamic _ hv rfl
    · exact hdynamic _ hv rfl
    · refine hdynamic _ ?_ rfl
      show ∀ m ∈ (info.arg v).mentions, _
      rw [info.mentions_arg]
      exact hv

theorem wellScoped_body {c : Config} {s : Shape} {code : Body} (h : body c s = .ok code) :
    Code.WellScoped binding [] code := by
  have hidentity : RunsFrom Pending.last 0 (identityCode c s) (Scopes [] 0) := by
    obtain ⟨info, fields, rfl⟩ | hw := s.struct_or
    · have hself : (Var.mk .self false).Known [] := List.forall_mem_nil _
      rw [identityCode_struct]
      refine (scopes_structCode hself true (fun l t scope' m hl hsub ht => ?_) 0).bind
        fun first m hfirst => ?_
      · exact scopes_fieldsCode (hself.mono hsub) ht
          (fun f _ v n hv => scopes_shapeCode c f.value hv n)
          (by rw [Layout.declared_of_plan hl, Nat.zero_add]) m
      · refine (scopes_flush m).bind_at fun last hlast => .pure ?_
        exact hfirst.append (hlast _ _)
    · rw [identityCode_wrapped c hw]
      refine (scopes_shapeCode c s (Var.known_receiver s []) 0).bind fun first m hfirst => ?_
      refine (scopes_flush m).bind_at fun last hlast => .pure ?_
      exact (hfirst.append (hlast _ _)).widen (Nat.zero_le _) (Nat.le_refl _)
  obtain ⟨p', hrun⟩ := exists_of_run' h
  have hsound := hidentity {} code p' rfl hrun
  exact ⟨hsound.inScope, hsound.numbered.distinct⟩

/-- The encoder of a struct that leaves out empty fields declares one flag for each field. -/
theorem declareFlags_mem_body {c : Config} {info : StructInfo} {fields : List Field} {l : Layout}
    {code : Body} (h : body c (.struct info fields) = .ok code)
    (hl : Layout.plan c.protocol info fields = .ok l) (hm : l.mode.isDynamic = true) :
    .declareFlags .outer l.declared ∈ Code.leavesAll code := by
  have hidentity : RunsFrom Pending.last 0 (identityCode c (.struct info fields))
      fun code _ => .declareFlags .outer l.declared ∈ Code.leavesAll code := by
    rw [identityCode_struct]
    refine RunsFrom.bind (RunsFrom.bind_lift fun layout hlayout => ?_) fun first m hfirst =>
      (RunsFrom.trivial m flush).bind fun last _ _ => .pure
        (by rw [Code.leavesAll_append]; exact List.mem_append_left _ hfirst)
    obtain rfl := Except.ok.inj (hl.symm.trans hlayout)
    split
    · rename_i htuple
      rw [htuple] at hm
      cases hm
    · rename_i hstatic
      rw [hstatic] at hm
      cases hm
    · have htally : RunsFrom Pending.last 0 (tallyCode l ⟨.self, false⟩ true)
          fun r _ => .declareFlags .outer l.declared ∈ Code.leavesAll r.2 :=
        (RunsFrom.trivial 0 flush).bind fun before _ _ => .pure (by simp [Code.leaves])
      refine htally.bind fun r k hr => ?_
      refine (RunsFrom.trivial k _).bind fun entry k _ => ?_
      refine (RunsFrom.trivial k _).bind fun rest k _ => .pure ?_
      simp only [List.append_assoc, Code.leavesAll_append]
      exact List.mem_append_left _ hr
  obtain ⟨p', hrun⟩ := exists_of_run' h
  exact hidentity {} code p' rfl hrun

/-- The companion is given the flags that the encoder declares. -/
theorem wellScoped_companion {c : Config} {s : Shape} {code sideCode : Body}
    (hcode : body c s = .ok code) (hside : companion c s = .ok (some sideCode)) :
    ∃ size, .declareFlags .outer size ∈ Code.leavesAll code ∧
      Code.WellScoped binding [(Tally.computed.flags, size)] sideCode := by
  unfold companion at hside
  split at hside
  · rename_i info fields
    obtain ⟨l, hl, hside⟩ := bind_eq_ok hside
    split at hside
    · rename_i hm
      obtain rfl := Option.some.inj (Except.ok.inj hside)
      refine ⟨l.declared, declareFlags_mem_body hcode hl hm, ?_⟩
      let scope : Scope := [(Tally.computed.flags, l.declared)]
      have hnumbered : Numbered 0 1 [Tally.computed.count] := ⟨by decide, by decide, by decide⟩
      have hcount : Sound binding scope 0 1 [.line (.declareCount .computed l.live)] :=
        .line (List.forall_mem_nil _) hnumbered
      have hflags : FlagsKnown ((Tally.computed.count, 0) :: scope) .computed l.declared :=
        ⟨List.mem_cons_of_mem _ List.mem_cons_self, List.mem_cons_self⟩
      have hchecks := sound_checks (v := ⟨.self, false⟩)
        (fun slot hslot => Layout.index_lt_declared hl hslot) (List.forall_mem_nil _) hflags 1
      have hgive : Sound binding ((Tally.computed.count, 0) :: scope) 1 1
          [.line (.giveCount .computed)] :=
        .plainLine (List.forall_mem_singleton.2 hflags.count) rfl (Nat.le_refl _)
      have hrest := hchecks.append hgive
      rw [List.append_assoc]
      refine ⟨(hcount.andThen hrest).inScope, ?_⟩
      -- the count is the only name that it introduces
      rw [Code.introducedAll_append, hrest.numbered.eq_nil]
      exact (by decide : [Tally.computed.flags, Tally.computed.count].Nodup)
    · cases hside
  · cases hside

end Marshal

/-! ## Size estimates -/

namespace Msgsize

open Code (Sound)

/-- The local names that a size mentions. -/
def Term.mentions : Term → List Mention
  | length arg => arg.mentions
  | lengthTimes source _ | delegate source => source.mentions
  | guess v => v.place.mentions

/-- What the lines of a size estimate do with local names other than the sum. -/
def binding : Binding Line where
  mentions
    | .declare s | .add s => (s.term.map Term.mentions).getD []
    | _ => []
  introduces _ := []

/-- Code that does not declare the sum. -/
def Undeclaring (code : Body) : Prop := ∀ s, .declare s ∉ Code.leavesAll code

/-- Code before and after which the sum is declared or not: nothing is written before it is
declared, and the first statement declares it. -/
inductive Declaring : Bool → Body → Bool → Prop where
  | before : Declaring false [] false
  | opens {s : Sum} {rest : Body} (h : Undeclaring rest) :
      Declaring false (.line (.declare s) :: rest) true
  | after {code : Body} (h : Undeclaring code) : Declaring true code true

theorem Undeclaring.append {first second : Body} (h : Undeclaring first)
    (h' : Undeclaring second) : Undeclaring (first ++ second) := by
  intro s hs
  rw [Code.leavesAll_append] at hs
  exact (List.mem_append.1 hs).elim (h s) (h' s)

namespace Declaring

variable {d d' d'' : Bool} {first second : Body}

theorem append (h : Declaring d first d') (h' : Declaring d' second d'') :
    Declaring d (first ++ second) d'' := by
  cases h with
  | before => exact h'
  | opens hrest =>
    cases h' with
    | after h' => exact .opens (hrest.append h')
  | after h =>
    cases h' with
    | after h' => exact .after (h.append h')

theorem of_declared (h : Declaring true first d') : d' = true ∧ Undeclaring first := by
  cases h with
  | after h => exact ⟨rfl, h⟩

end Declaring

/-- The number of names drawn so far, and whether the sum is declared. -/
def Pending.view (p : Pending) : Nat × Bool := (p.names.last, p.declared)

/-- Code in a scope, after which some number of names was drawn and the sum is declared or not. -/
structure Scopes (scope : Scope) (lo : Nat) (d : Bool) (code : Body) (m : Nat × Bool) : Prop where
  sound : Sound binding scope lo (m.1 + 1) code
  declaring : Declaring d code m.2

/-- Code that adds to the sum and introduces no names. -/
structure AddsOnly (scope : Scope) (d : Bool) (code : Body) (d' : Bool) : Prop where
  sound : ∀ lo, Sound binding scope lo lo code
  declaring : Declaring d code d'

variable {scope : Scope} {n lo : Nat} {d d' : Bool}

theorem AddsOnly.nil : AddsOnly scope d [] d := by
  refine ⟨fun _ => .nil (Nat.le_refl _), ?_⟩
  cases d with
  | false => exact .before
  | true => exact .after fun _ hs => nomatch hs

theorem AddsOnly.scopes {code : Body} (h : AddsOnly scope d code d') :
    Scopes scope (n + 1) d code (n, d') :=
  ⟨h.sound _, h.declaring⟩

theorem AddsOnly.andThen {first second : Body} {m : Nat × Bool} (h : AddsOnly scope d first d')
    (h' : Scopes scope lo d' second m) : Scopes scope lo d (first ++ second) m :=
  ⟨(h.sound lo).append h'.sound, h.declaring.append h'.declaring⟩

theorem Scopes.append {first second : Body} {m k : Nat × Bool}
    (h : Scopes scope lo d first m) (h' : Scopes scope (m.1 + 1) m.2 second k) :
    Scopes scope lo d (first ++ second) k :=
  ⟨h.sound.append h'.sound, h.declaring.append h'.declaring⟩

/-- A line declares the sum if nothing has, and adds to it otherwise. -/
theorem addsOnly_line (scope : Scope) {s : Sum}
    (h : ∀ m ∈ (s.term.map Term.mentions).getD [], m.In scope) (d : Bool) :
    AddsOnly scope d [.line (if d then .add s else .declare s)] true := by
  cases d with
  | false =>
    exact ⟨fun _ => .plainLine h rfl (Nat.le_refl _), .opens fun _ hs => nomatch hs⟩
  | true =>
    refine ⟨fun _ => .plainLine h rfl (Nat.le_refl _), .after fun s' hs => ?_⟩
    simp [Code.leaves] at hs

theorem scopes_drawName {α : Type} {f : Nat → Emit α} {Q : α → Nat × Bool → Prop}
    (h : RunsFrom Pending.view (n + 1, d) (f (n + 1)) Q) :
    RunsFrom Pending.view (n, d) (drawName >>= f) Q := by
  have hdraw : RunsFrom Pending.view (n, d) drawName fun number k =>
      k = (n + 1, d) ∧ number = n + 1 := by
    rintro p number p' hp hrun
    obtain ⟨rfl, rfl⟩ := Prod.mk.inj hp
    obtain ⟨rfl, rfl⟩ := Prod.mk.inj (Except.ok.inj hrun)
    exact ⟨rfl, rfl⟩
  exact hdraw.bind_at fun number hnumber => hnumber ▸ h

/-- A number held back draws no name and declares nothing. -/
theorem scopes_addKnown (size : Nat) (m : Nat × Bool) :
    RunsFrom Pending.view m (addKnown size) fun _ k => k = m := by
  rintro p _ p' rfl hrun
  obtain ⟨q, p₁, hget, hrun⟩ := run_bind_eq_ok hrun
  obtain ⟨rfl, rfl⟩ := Prod.mk.inj (Except.ok.inj hget)
  obtain ⟨known, p₂, hlift, hrun⟩ := run_bind_eq_ok hrun
  obtain ⟨-, rfl⟩ := run_lift_eq_ok hlift
  obtain rfl := (Prod.mk.inj (Except.ok.inj hrun)).2
  rfl

theorem scopes_addTerm (t : Term) (ht : ∀ m ∈ t.mentions, m.In scope) (n : Nat) (d : Bool) :
    RunsFrom Pending.view (n, d) (addTerm t) fun code m =>
      m = (n, true) ∧ AddsOnly scope d code true := by
  rintro p code p' hp hrun
  obtain ⟨rfl, rfl⟩ := Prod.mk.inj hp
  obtain ⟨rfl, rfl⟩ := Prod.mk.inj (Except.ok.inj hrun)
  exact ⟨rfl, addsOnly_line scope (s := ⟨p.known, some t⟩) ht p.declared⟩

theorem scopes_flush (n : Nat) (d : Bool) :
    RunsFrom Pending.view (n, d) flush fun code m =>
      m = (n, true) ∧ ∀ scope, AddsOnly scope d code true := by
  rintro p code p' hp hrun
  obtain ⟨rfl, rfl⟩ := Prod.mk.inj hp
  rw [flush_eq] at hrun
  obtain ⟨rfl, rfl⟩ := Prod.mk.inj (Except.ok.inj hrun)
  refine ⟨rfl, fun scope => ?_⟩
  have hline := addsOnly_line scope (s := ⟨p.known, none⟩) (List.forall_mem_nil _) p.declared
  cases hd : p.declared with
  | false =>
    rw [hd] at hline
    exact hline
  | true =>
    rw [hd] at hline
    simp only [Bool.not_true, Bool.false_eq_true, if_false]
    split
    · exact hline
    · exact .nil

/-- A block whose head has names with numbers drawn before. -/
theorem scopes_block (head : Head) (hmentions : ∀ m ∈ head.mentions, m.In scope)
    (hintroduces : Numbered lo (n + 1) (head.introduces.map Prod.fst)) {body : Emit Body}
    (h : RunsFrom Pending.view (n, true) body (Scopes (head.introduces ++ scope) (n + 1) true)) :
    RunsFrom Pending.view (n, d) (block head body) (Scopes scope lo d) := by
  refine (scopes_flush n d).bind_at fun before hbefore => ?_
  refine h.bind fun inside m hinside => ?_
  obtain ⟨k, d'⟩ := m
  obtain ⟨rfl, hundeclaring⟩ := hinside.declaring.of_declared
  refine (scopes_flush k true).bind_at fun after hafter => .pure ?_
  have hrest := hafter (head.introduces ++ scope)
  have hinside := hinside.sound.append (hrest.sound _)
  refine (hbefore scope).andThen ⟨.block hmentions hintroduces hinside, ?_⟩
  refine .after fun s hs => ?_
  have hall := hundeclaring.append hrest.declaring.of_declared.2
  simp only [Code.leavesAll_cons, Code.leaves, Code.leavesAll_nil, List.append_nil] at hs
  exact hall s hs

theorem scopes_structHeader (layout : Layout) (m : Nat × Bool) :
    RunsFrom Pending.view m (structHeader layout) fun _ k => k = m := by
  have hpair (first second : Nat) : RunsFrom Pending.view m (do addKnown first; addKnown second)
      fun _ k => k = m :=
    (scopes_addKnown first m).bind_same fun _ => scopes_addKnown second m
  have honce (first : Nat) : RunsFrom Pending.view m (do addKnown first; return ())
      fun _ k => k = m :=
    (scopes_addKnown first m).bind_same fun _ => .pure rfl
  unfold structHeader
  cases layout.fingerprint with
  | some entry => cases layout.header <;> exact hpair _ _
  | none => cases layout.header <;> exact honce _

theorem scopes_known (size : Nat) (n : Nat) (d : Bool) :
    RunsFrom Pending.view (n, d) (do addKnown size; return []) fun code m =>
      m = (n, d) ∧ ∀ scope, AddsOnly scope d code d :=
  (scopes_addKnown size (n, d)).bind_same fun _ => .pure ⟨rfl, fun _ => .nil⟩

theorem scopes_knownAndTerm (size : Nat) (t : Term) (ht : ∀ m ∈ t.mentions, m.In scope) (n : Nat)
    (d : Bool) :
    RunsFrom Pending.view (n, d) (do addKnown size; addTerm t) fun code m =>
      m = (n, true) ∧ AddsOnly scope d code true :=
  (scopes_addKnown size (n, d)).bind_same fun _ => scopes_addTerm t ht n d

theorem scopes_scalarCode {v : Var} (hv : v.Known scope) (info : BaseInfo) (n : Nat) (d : Bool) :
    RunsFrom Pending.view (n, d) (scalarCode info v) fun code m =>
      ∃ d', m = (n, d') ∧ AddsOnly scope d code d' := by
  unfold scalarCode
  split
  · exact (scopes_known _ n d).imp fun code m hcode => ⟨d, hcode.1, hcode.2 scope⟩
  · split
    · exact (scopes_addTerm (.delegate v.place) hv n d).imp fun _ _ hcode => ⟨true, hcode⟩
    · exact (scopes_addTerm (.guess v) hv n d).imp fun _ _ hcode => ⟨true, hcode⟩
    · exact (scopes_knownAndTerm _ (.length (.place v.place)) hv n d).imp
        fun _ _ hcode => ⟨true, hcode⟩
    · refine (scopes_knownAndTerm _ (.length _) ?_ n d).imp fun _ _ hcode => ⟨true, hcode⟩
      show ∀ m ∈ Arg.mentions _, m.In scope
      split
      · rw [info.mentions_arg]
        exact hv
      · exact hv

theorem scopes_keyCode {number : Nat} (hkey : Mention.In ⟨(keyLocal number).text, none⟩ scope)
    (key : KeyKind) (n : Nat) :
    RunsFrom Pending.view (n, true) (keyCode number key) fun code m =>
      m = (n, true) ∧ AddsOnly scope true code true := by
  cases key with
  | string =>
    have hmentions : ∀ m ∈ (Place.bound (keyLocal number)).mentions, m.In scope :=
      List.forall_mem_singleton.2 hkey
    exact scopes_knownAndTerm _ (.length (.place (.bound (keyLocal number)))) hmentions n true
  | int64 => exact (scopes_known _ n true).imp fun _ _ hcode => ⟨hcode.1, hcode.2 scope⟩

theorem scopes_fieldsCode {c : Config} {l : Layout} {v : Var} (hv : v.Known scope)
    {fields : List Field}
    (h : ∀ f ∈ fields, ∀ (v : Var) n d, v.Known scope →
      RunsFrom Pending.view (n, d) (shapeCode c f.value v) (Scopes scope (n + 1) d))
    (index n : Nat) (d : Bool) :
    RunsFrom Pending.view (n, d) (fieldsCode c l v fields index) (Scopes scope (n + 1) d) := by
  induction fields generalizing index n d with
  | nil => exact .pure AddsOnly.nil.scopes
  | cons f rest ih =>
    obtain ⟨info, value⟩ := f
    obtain ⟨hvalue, hrest⟩ := List.forall_mem_cons.1 h
    unfold fieldsCode
    split
    · exact ih hrest (index + 1) n d
    · refine (scopes_addKnown _ (n, d)).bind_same fun _ => ?_
      refine (hvalue (v.field info.name) n d hv).bind fun here m hhere => ?_
      exact (ih hrest (index + 1) m.1 m.2).bind fun code k hcode => .pure (hhere.append hcode)

/-- A loop over elements, whose name has the number that was drawn last. -/
theorem scopes_items {c : Config} {element : Shape}
    (h : ∀ {v : Var} {scope : Scope}, v.Known scope → ∀ n d,
      RunsFrom Pending.view (n, d) (shapeCode c element v) (Scopes scope (n + 1) d))
    {v : Var} (hv : v.Known scope) (n : Nat) (d : Bool) :
    RunsFrom Pending.view (n, d)
      (block (.items ⟨"za", n⟩ v.place) (shapeCode c element (.ofLocal ⟨"za", n⟩)))
      (Scopes scope n d) :=
  scopes_block (.items ⟨"za", n⟩ v.place) hv (Head.numbered_items rfl n v.place)
    (h (Var.known_ofLocal _ scope) n true)

/-- The two arms of an optional value, whose name has the number that was drawn last. -/
theorem scopes_optional {v : Var} (hv : v.Known scope) {value after orElse : Body} {k : Nat}
    (hvalue : Scopes (((Local.mk "zp" n).text, 0) :: scope) (n + 1) true value (k, true))
    (hafter : AddsOnly (((Local.mk "zp" n).text, 0) :: scope) true after true)
    (hor : AddsOnly scope true orElse true) :
    Scopes scope n true [.optional ⟨"zp", n⟩ v (value ++ after) orElse] (k, true) := by
  have hname : Numbered n (n + 1) [(Local.mk "zp" n).text] :=
    .single (rfl : isStem "zp" = true) n
  refine ⟨.optional hv hname (hvalue.sound.append (hafter.sound _)) (hor.sound _), ?_⟩
  have hbody := hvalue.declaring.of_declared.2.append hafter.declaring.of_declared.2
  refine .after fun s hs => ?_
  simp only [Code.leavesAll_cons, Code.leaves, Code.leavesAll_nil, List.append_nil] at hs
  exact hbody.append hor.declaring.of_declared.2 s (by rwa [Code.leavesAll_append])

/-- The code of a shape mentions the names in its scope and its own, and declares the sum if
nothing has. -/
theorem scopes_shapeCode (c : Config) (s : Shape) {v : Var} {scope : Scope} (hv : v.Known scope)
    (n : Nat) (d : Bool) :
    RunsFrom Pending.view (n, d) (shapeCode c s v) (Scopes scope (n + 1) d) := by
  induction s generalizing v scope n d with
  | struct info fields ih =>
    refine RunsFrom.bind_lift fun l _ => ?_
    refine (scopes_structHeader l (n, d)).bind_same fun _ => ?_
    exact scopes_fieldsCode hv (fun f hf v n d hv => ih f hf hv n d) 0 n d
  | map key value ih =>
    refine (scopes_addKnown _ (n, d)).bind_same fun _ => ?_
    refine scopes_drawName ?_
    have hkey := Head.key_in_entries (n + 1) v.place scope
    have hvalue := Head.value_known_entries (n + 1) v.place scope
    refine scopes_block (.entries (n + 1) v.place) hv (Head.numbered_entries (n + 1) v.place) ?_
    refine (scopes_keyCode hkey key (n + 1)).bind_at fun code hcode => ?_
    exact (ih hvalue (n + 1) true).bind fun rest m hrest => .pure (hcode.andThen hrest)
  | slice element ih =>
    refine (scopes_addKnown _ (n, d)).bind_same fun _ => ?_
    refine RunsFrom.bind_lift fun size _ => ?_
    cases size with
    | some size =>
      refine (scopes_addTerm (.lengthTimes v.place size) hv n d).imp fun code m hcode => ?_
      obtain ⟨rfl, hadds⟩ := hcode
      exact hadds.scopes
    | none =>
      refine scopes_drawName ?_
      exact scopes_items ih hv (n + 1) d
  | array info element ih =>
    refine RunsFrom.bind_lift fun _ _ => ?_
    refine RunsFrom.bind_lift fun size _ => ?_
    cases size with
    | some size =>
      refine (scopes_known size n d).imp fun code m hcode => ?_
      obtain ⟨rfl, hadds⟩ := hcode
      exact (hadds scope).scopes
    | none =>
      refine (scopes_addKnown _ (n, d)).bind_same fun _ => ?_
      refine scopes_drawName ?_
      exact scopes_items ih hv (n + 1) d
  | ptr pointee ih =>
    refine RunsFrom.bind_lift fun size _ => ?_
    cases size with
    | some size =>
      refine (scopes_known _ n d).imp fun code m hcode => ?_
      obtain ⟨rfl, hadds⟩ := hcode
      exact (hadds scope).scopes
    | none =>
      refine scopes_drawName ?_
      refine (scopes_flush (n + 1) d).bind_at fun before hbefore => ?_
      refine (ih (Var.known_ofLocal ⟨"zp", n + 1⟩ scope) (n + 1) true).bind fun value m hvalue => ?_
      obtain ⟨k, d'⟩ := m
      obtain ⟨rfl, -⟩ := hvalue.declaring.of_declared
      refine (scopes_flush k true).bind_at fun after hafter => ?_
      refine (scopes_addKnown _ (k, true)).bind_same fun _ => ?_
      refine (scopes_flush k true).bind_at fun orElse hor => .pure ?_
      exact (hbefore scope).andThen (scopes_optional hv hvalue (hafter _) (hor scope))
  | base info =>
    refine (scopes_scalarCode hv info n d).imp fun code m hcode => ?_
    obtain ⟨d', rfl, hadds⟩ := hcode
    exact hadds.scopes

theorem scopes_resultCode (n : Nat) (d : Bool) :
    RunsFrom Pending.view (n, d) resultCode fun code m => m = (n, d) ∧
      (∀ lo, Sound binding [] lo lo code) ∧
      ((d = true ∧ Undeclaring code) ∨
        (d = false ∧ ∃ number, code = [.line (.giveNumber number)])) := by
  rintro p code p' hp hrun
  obtain ⟨rfl, rfl⟩ := Prod.mk.inj hp
  obtain ⟨q, p₁, hget, hrun⟩ := run_bind_eq_ok hrun
  obtain ⟨rfl, rfl⟩ := Prod.mk.inj (Except.ok.inj hget)
  have hline (lo : Nat) (l : Line) (hl : binding.mentions l = []) :
      Sound binding [] lo lo [.line l] :=
    .plainLine (hl ▸ List.forall_mem_nil _) rfl (Nat.le_refl _)
  cases hd : p.declared with
  | false =>
    simp only [hd, Bool.false_eq_true, if_false] at hrun
    obtain ⟨rfl, rfl⟩ := run_pure_eq_ok hrun
    exact ⟨by simp [Pending.view, hd], fun lo => hline lo _ rfl, .inr ⟨rfl, _, rfl⟩⟩
  | true =>
    simp only [hd, if_true] at hrun
    obtain ⟨rfl, rfl⟩ := run_pure_eq_ok hrun
    refine ⟨by simp [Pending.view, hd], fun lo => .append ?_ (hline lo .giveSum rfl),
      .inl ⟨rfl, ?_⟩⟩
    · split
      · exact hline lo _ rfl
      · exact .nil (Nat.le_refl _)
    · intro s hs
      split at hs <;> simp [Code.leaves] at hs

/-- The names of a size estimate are well scoped. It is a number, or its first statement declares
the sum and no other does. -/
theorem wellScoped_body {c : Config} {s : Shape} {code : Body} (h : body c s = .ok code) :
    Code.WellScoped binding [] code ∧
      ((∃ number, code = [.line (.giveNumber number)]) ∨
        ∃ sum rest, code = .line (.declare sum) :: rest ∧ Undeclaring rest) := by
  have hidentity : RunsFrom Pending.view (0, false) (identityCode c s) fun code m =>
      Sound binding [] 1 (m.1 + 1) code ∧
        ((∃ number, code = [.line (.giveNumber number)]) ∨
          ∃ sum rest, code = .line (.declare sum) :: rest ∧ Undeclaring rest) := by
    refine (scopes_shapeCode c s (Var.known_receiver s []) 0 false).bind fun first m hfirst => ?_
    obtain ⟨k, d⟩ := m
    refine (scopes_resultCode k d).bind fun last m hlast => .pure ?_
    obtain ⟨rfl, hsound, hresult⟩ := hlast
    refine ⟨hfirst.sound.append (hsound _), ?_⟩
    have hdeclaring : Declaring false first d := hfirst.declaring
    cases hdeclaring with
    | before => exact .inl (hresult.resolve_left fun h => nomatch h.1).2
    | opens hrest =>
      have hlast := (hresult.resolve_right fun h => nomatch h.1).2
      exact .inr ⟨_, _, rfl, hrest.append hlast⟩
  obtain ⟨p', hrun⟩ := exists_of_run' h
  obtain ⟨hsound, hsum⟩ := hidentity {} code p' rfl hrun
  exact ⟨⟨hsound.inScope, hsound.numbered.distinct⟩, hsum⟩

end Msgsize

/-! ## Functions -/

/-- A generator that writes an encoder makes the calls of its function, on every writer. -/
theorem Marshal.writeImpl_eq_perform {c : Config} {s : Shape} {code : Body} {side : Option Body}
    (hcode : body c s = .ok code) (hside : companion c s = .ok side) (name : String) :
    ∃ p, ∀ w, writeImpl c name s ⟨c, w, {}⟩ =
      .ok () ⟨c, w.perform (implCalls c name code side), p⟩ := by
  obtain ⟨p, hrun⟩ := exists_of_run' hcode
  refine ⟨p, fun w => ?_⟩
  rw [writeImpl_of_ok hrun, perform_implCalls, hside]
  rfl

/-- A generator that writes a size estimate makes the calls of its function, on every writer. -/
theorem Msgsize.writeImpl_eq_perform {c : Config} {s : Shape} {code : Body}
    (hcode : body c s = .ok code) (name : String) : ∃ p,
      ∀ w, writeImpl c name s ⟨c, w, {}⟩ = .ok () ⟨c, w.perform (implCalls c name code), p⟩ := by
  obtain ⟨p, hrun⟩ := exists_of_run' hcode
  refine ⟨p, fun w => ?_⟩
  rw [writeImpl_of_ok hrun, perform_implCalls]

/-- Generated functions are well formed. There are calls that the generator of an encoder or of a
size estimate makes, whatever writer it is given. Those calls end the blocks that they open and no
others, and leave the writer at depth zero; the text is what they write.
Local names are introduced once in their function and mentioned in their scopes, flags with indices
below their number; the companion has the flags that the encoder declares. A size estimate is a
number, or its first statement and no other declares the sum. -/
theorem render_well_formed (c : Config) (name : String) (s : Shape) :
    (∀ text, Marshal.render c name s = .ok (some text) → ∃ code side,
      Marshal.body c s = .ok code ∧ Marshal.companion c s = .ok side ∧
      (∃ p, ∀ w, Marshal.writeImpl c name s ⟨c, w, {}⟩ =
        .ok () ⟨c, w.perform (Marshal.implCalls c name code side), p⟩) ∧
      text = ((Writer.new c.indent).perform (Marshal.implCalls c name code side)).text ∧
      Writer.depthAfter? 0 (Marshal.implCalls c name code side) = some 0 ∧
      ((Writer.new c.indent).perform (Marshal.implCalls c name code side)).depth = 0 ∧
      Code.WellScoped Marshal.binding [] code ∧
      ∀ sideCode ∈ side, ∃ size, .declareFlags .outer size ∈ Code.leavesAll code ∧
        Code.WellScoped Marshal.binding [(Tally.computed.flags, size)] sideCode) ∧
    (∀ text, Msgsize.render c name s = .ok (some text) → ∃ code,
      Msgsize.body c s = .ok code ∧
      (∃ p, ∀ w, Msgsize.writeImpl c name s ⟨c, w, {}⟩ =
        .ok () ⟨c, w.perform (Msgsize.implCalls c name code), p⟩) ∧
      text = ((Writer.new c.indent).perform (Msgsize.implCalls c name code)).text ∧
      Writer.depthAfter? 0 (Msgsize.implCalls c name code) = some 0 ∧
      ((Writer.new c.indent).perform (Msgsize.implCalls c name code)).depth = 0 ∧
      Code.WellScoped Msgsize.binding [] code ∧
      ((∃ number, code = [.line (.giveNumber number)]) ∨
        ∃ sum rest, code = .line (.declare sum) :: rest ∧ Msgsize.Undeclaring rest)) := by
  constructor
  · intro text h
    obtain ⟨code, side, hcode, hside, rfl⟩ := Marshal.render_eq_some h
    have hbalanced := Marshal.balanced_implCalls c name code side 0
    refine ⟨code, side, hcode, hside, Marshal.writeImpl_eq_perform hcode hside name, ?_, hbalanced,
      Writer.depth_perform hbalanced, Marshal.wellScoped_body hcode, ?_⟩
    · rw [Marshal.perform_implCalls]
      rfl
    · rintro sideCode rfl
      exact Marshal.wellScoped_companion hcode hside
  · intro text h
    obtain ⟨code, hcode, rfl⟩ := Msgsize.render_eq_some h
    have hbalanced := Msgsize.balanced_implCalls c name code 0
    refine ⟨code, hcode, Msgsize.writeImpl_eq_perform hcode name, ?_, hbalanced,
      Writer.depth_perform hbalanced, Msgsize.wellScoped_body hcode⟩
    rw [Msgsize.perform_implCalls]
    rfl

/-- A struct that leaves out empty fields, with another one in a slice, and a map of optional
values in that. -/
def yard : Shape := .struct { name := "Yard", hasOmitEmptyTags := true } [
  .mk { zid := 0, name := "gates" } (.array ⟨"2", some 2⟩ (.ofKind .string)),
  .mk { zid := 1, name := "cranes", omitEmpty := true } (.slice
    (.struct { name := "Crane" } [
      .mk { zid := 0, name := "loads" } (.map .string (.ptr (.ofKind .string)))]))]

theorem yard_well_formed :
    (∃ text code, Marshal.render {} "Yard" yard = .ok (some text) ∧
      Marshal.body {} yard = .ok code ∧ Code.WellScoped Marshal.binding [] code ∧
      Code.introducedAll Marshal.binding code = ["empty", "fields_in_use", "za0001", "za0002",
        "empty0003", "fields_in_use0003", "zk0004", "zv0004", "zp0005"]) ∧
    ∃ text code, Msgsize.render {} "Yard" yard = .ok (some text) ∧
      Msgsize.body {} yard = .ok code ∧ Code.WellScoped Msgsize.binding [] code ∧
      ∃ sum rest, code = .line (.declare sum) :: rest ∧ Msgsize.Undeclaring rest := by
  constructor
  · have hnames : (Marshal.body {} yard).map (Code.introducedAll Marshal.binding) = .ok [
        "empty", "fields_in_use", "za0001", "za0002", "empty0003", "fields_in_use0003", "zk0004",
        "zv0004", "zp0005"] := by decide +kernel
    obtain ⟨side, hside⟩ : ∃ side, Marshal.companion {} yard = .ok side := ⟨_, rfl⟩
    cases hcode : Marshal.body {} yard with
    | error fault =>
      rw [hcode] at hnames
      cases hnames
    | ok code =>
      rw [hcode] at hnames
      have hrender := Marshal.render_of_body "Yard" rfl hcode hside
      obtain ⟨code', -, hcode', -, -, -, -, -, hscoped, -⟩ :=
        (render_well_formed {} "Yard" yard).1 _ hrender
      obtain rfl := Except.ok.inj (hcode.symm.trans hcode')
      exact ⟨_, code, hrender, rfl, hscoped, Except.ok.inj hnames⟩
  · have hlength : (Msgsize.body {} yard).map List.length = .ok 5 := by decide +kernel
    cases hcode : Msgsize.body {} yard with
    | error fault =>
      rw [hcode] at hlength
      cases hlength
    | ok code =>
      rw [hcode] at hlength
      have hrender := Msgsize.render_of_body "Yard" rfl hcode
      obtain ⟨code', hcode', -, -, -, -, hscoped, hsum⟩ :=
        (render_well_formed {} "Yard" yard).2 _ hrender
      obtain rfl := Except.ok.inj (hcode.symm.trans hcode')
      -- A number alone would be one statement.
      refine ⟨_, code, hrender, rfl, hscoped, hsum.resolve_left ?_⟩
      rintro ⟨number, rfl⟩
      cases hlength

end Packwright
