import Packwright.Proofs.Generation
import Packwright.Proofs.JsonTokens
import Packwright.Proofs.Statements

/-
  The scopes of local names in generated code. A name that a line introduces is in scope for the
  rest of its block, one that the head of a block introduces inside the block, and one that an
  optional value is bound to in the first arm. Code is `WellScoped` if it mentions names in their
  scopes alone, with indices below the declared number of flags, and introduces no name twice.

  Each name has a number behind its stem (`numberOf`), drawn for it, so the names that a piece of
  code introduces lie in an interval that no other piece has; `Sound` carries the interval, and
  has one rule for each way to put code together.
-/

namespace Packwright

/-! ## Numbers of names -/

/-- The number behind the stem of a local name; zero if there is none. -/
def numberOf (name : String) : Nat :=
  Decimal.value (name.toList.dropWhile fun c => !Decimal.isDigit c)

/-- A text that may stand in front of a number: no digits. -/
def isStem (stem : String) : Bool := stem.toList.all fun c => !Decimal.isDigit c

theorem numberOf_localSuffix {stem : String} (h : isStem stem = true) (number : Nat) :
    numberOf (stem ++ localSuffix number) = number := by
  have hzeros (k : Nat) (cs : List Char) :
      Decimal.value (List.replicate k '0' ++ cs) = Decimal.value cs := by
    induction k with
    | zero => rfl
    | succ k ih => exact ih
  have hall : ∀ c ∈ (localSuffix number).toList, Decimal.isDigit c = true := by
    intro c hc
    rw [localSuffix, Decimal.padded, String.toList_ofList, List.mem_append] at hc
    rcases hc with hc | hc
    · rw [List.eq_of_mem_replicate hc]
      rfl
    · exact Decimal.isDigit_of_mem_digits hc
  have hkeep : (localSuffix number).toList.dropWhile (fun c => !Decimal.isDigit c) =
      (localSuffix number).toList := by
    cases hsuffix : (localSuffix number).toList with
    | nil => rfl
    | cons c rest =>
      have hc := hall c (by rw [hsuffix]; exact List.mem_cons_self)
      exact List.dropWhile_cons_of_neg (by simp [hc])
  rw [numberOf, String.toList_append, List.dropWhile_append_of_pos (List.all_eq_true.1 h), hkeep,
    localSuffix, Decimal.padded, String.toList_ofList, hzeros, Decimal.value_digits]

/-- Distinct names, numbered from an interval. -/
structure Numbered (lo hi : Nat) (names : List String) : Prop where
  le : lo ≤ hi
  distinct : names.Nodup
  within : ∀ name ∈ names, lo ≤ numberOf name ∧ numberOf name < hi

namespace Numbered

variable {lo mid hi : Nat} {names names' : List String}

theorem nil (h : lo ≤ hi) : Numbered lo hi [] := ⟨h, List.nodup_nil, List.forall_mem_nil _⟩

theorem widen {lo' hi' : Nat} (h : Numbered lo hi names) (hlo : lo' ≤ lo) (hhi : hi ≤ hi') :
    Numbered lo' hi' names := by
  refine ⟨Nat.le_trans hlo (Nat.le_trans h.le hhi), h.distinct, fun name hname => ?_⟩
  have hwithin := h.within name hname
  omega

theorem eq_nil (h : Numbered lo lo names) : names = [] := by
  refine List.eq_nil_iff_forall_not_mem.2 fun name hname => ?_
  have hwithin := h.within name hname
  omega

/-- Intervals that follow each other have no name in common. -/
theorem append (h : Numbered lo mid names) (h' : Numbered mid hi names') :
    Numbered lo hi (names ++ names') := by
  refine ⟨Nat.le_trans h.le h'.le, ?_, ?_⟩
  · refine List.nodup_append.2 ⟨h.distinct, h'.distinct, ?_⟩
    rintro name hname _ hname' rfl
    have hlt := (h.within name hname).2
    have hle := (h'.within name hname').1
    omega
  · refine List.forall_mem_append.2 ⟨fun name hname => ?_, fun name hname => ?_⟩
    · exact (h.widen (Nat.le_refl _) h'.le).within name hname
    · exact (h'.widen h.le (Nat.le_refl _)).within name hname

theorem single {stem : String} (h : isStem stem = true) (n : Nat) :
    Numbered n (n + 1) [stem ++ localSuffix n] := by
  refine ⟨Nat.le_succ n, by simp, List.forall_mem_singleton.2 ?_⟩
  rw [numberOf_localSuffix h]
  omega

/-- Two names may share a number if their stems differ. -/
theorem pair {stem stem' : String} (h : isStem stem = true) (h' : isStem stem' = true)
    (hne : stem ≠ stem') (n : Nat) :
    Numbered n (n + 1) [stem ++ localSuffix n, stem' ++ localSuffix n] := by
  have hdistinct : stem ++ localSuffix n ≠ stem' ++ localSuffix n := by
    intro heq
    have hlist := congrArg String.toList heq
    rw [String.toList_append, String.toList_append] at hlist
    exact hne (String.toList_injective (List.append_cancel_right hlist))
  refine ⟨Nat.le_succ n, by simp [hdistinct], ?_⟩
  simp only [List.forall_mem_cons, numberOf_localSuffix h, numberOf_localSuffix h']
  exact ⟨by omega, by omega, List.forall_mem_nil _⟩

end Numbered

/-! ## Mentions and introductions -/

/-- Names in scope, each with its number of flags. -/
abbrev Scope := List (String × Nat)

/-- A mention of a local name, or of one of its flags. -/
structure Mention where
  name : String
  index : Option Nat := none

/-- A name is in scope, and if a flag is meant then there is one. -/
def Mention.In (m : Mention) (scope : Scope) : Prop :=
  ∃ size, (m.name, size) ∈ scope ∧ ∀ i ∈ m.index, i < size

/-- The local names that a place mentions. -/
def Place.mentions : Place → List Mention
  | bound l => [⟨l.text, none⟩]
  | field base _ => base.mentions
  | _ => []

/-- The local names that an argument mentions. -/
def Arg.mentions : Arg → List Mention
  | place p => p.mentions
  | value v | reference v | converted _ v | asText v | asBytes v => v.place.mentions

/-- The local names that a test mentions. -/
def Condition.mentions : Condition → List Mention
  | isZero arg _ | isFalse arg | isEmpty arg => arg.mentions
  | isNone p | isZeroTime p => p.mentions

/-- The local names that the head of a block mentions. -/
def Head.mentions : Head → List Mention
  | items _ source | entries _ source => source.mentions
  | ifFlag t index | unlessFlag t index => [⟨t.flags, some index⟩]

/-- The names that the head of a block introduces inside it. -/
def Head.introduces : Head → Scope
  | items item _ => [(item.text, 0)]
  | entries number _ => [((keyLocal number).text, 0), ((valueLocal number).text, 0)]
  | _ => []

/-- What a line of code mentions and introduces. -/
structure Binding (α : Type) where
  mentions : α → List Mention
  introduces : α → Scope

namespace Code

variable {α : Type} (b : Binding α)

/-- The names that a statement introduces for those after it. -/
def introduces : Code α → Scope
  | line l => b.introduces l
  | _ => []

mutual

/-- A statement mentions names in their scopes alone. -/
def Scoped : Scope → Code α → Prop
  | scope, line l => ∀ m ∈ b.mentions l, m.In scope
  | scope, block head body =>
    (∀ m ∈ head.mentions, m.In scope) ∧ ScopedAll (head.introduces ++ scope) body
  | scope, optional name source body orElse =>
    (∀ m ∈ source.place.mentions, m.In scope) ∧ ScopedAll ((name.text, 0) :: scope) body ∧
      ScopedAll scope orElse

/-- Statements mention names in their scopes alone. -/
def ScopedAll : Scope → List (Code α) → Prop
  | _, [] => True
  | scope, c :: rest => Scoped scope c ∧ ScopedAll (c.introduces b ++ scope) rest

end

mutual

/-- All names that a statement introduces, at any depth. -/
def introduced : Code α → List String
  | line l => (b.introduces l).map Prod.fst
  | block head body => head.introduces.map Prod.fst ++ introducedAll body
  | optional name _ body orElse => name.text :: (introducedAll body ++ introducedAll orElse)

/-- All names that statements introduce, at any depth. -/
def introducedAll : List (Code α) → List String
  | [] => []
  | c :: rest => introduced c ++ introducedAll rest

end

/-- Names are mentioned in their scopes alone, and none is introduced twice, those given in the
beginning included. -/
structure WellScoped (scope : Scope) (code : List (Code α)) : Prop where
  inScope : ScopedAll b scope code
  distinct : (scope.map Prod.fst ++ introducedAll b code).Nodup

variable {b}

theorem introducedAll_append (first second : List (Code α)) :
    introducedAll b (first ++ second) = introducedAll b first ++ introducedAll b second := by
  induction first with
  | nil => rfl
  | cons c rest ih => rw [List.cons_append, introducedAll, introducedAll, ih, List.append_assoc]

end Code

theorem Scope.append_subset_append {scope scope' : Scope} (more : Scope) (h : scope ⊆ scope') :
    more ++ scope ⊆ more ++ scope' := fun _ hx =>
  List.mem_append.2 ((List.mem_append.1 hx).imp_right fun hmem => h hmem)

theorem Mention.In.of_mem {name : String} {size : Nat} {scope : Scope}
    (h : (name, size) ∈ scope) : Mention.In ⟨name, none⟩ scope := ⟨size, h, by simp⟩

theorem Mention.In.mono {m : Mention} {scope scope' : Scope} (h : m.In scope)
    (hsub : scope ⊆ scope') : m.In scope' :=
  h.imp fun _ hsize => hsize.imp_left fun hmem => hsub hmem

namespace Code

variable {α : Type} {b : Binding α}

mutual

theorem Scoped.mono {scope scope' : Scope} {c : Code α} (h : Scoped b scope c)
    (hsub : scope ⊆ scope') : Scoped b scope' c := by
  cases c with
  | line l => exact fun m hm => (h m hm).mono hsub
  | block head body =>
    exact ⟨fun m hm => (h.1 m hm).mono hsub,
      ScopedAll.mono h.2 (Scope.append_subset_append _ hsub)⟩
  | optional name source body orElse =>
    exact ⟨fun m hm => (h.1 m hm).mono hsub, ScopedAll.mono h.2.1 (List.cons_subset_cons _ hsub),
      ScopedAll.mono h.2.2 hsub⟩

/-- More names in scope do no harm. -/
theorem ScopedAll.mono {scope scope' : Scope} {code : List (Code α)} (h : ScopedAll b scope code)
    (hsub : scope ⊆ scope') : ScopedAll b scope' code := by
  cases code with
  | nil => trivial
  | cons c rest =>
    exact ⟨Scoped.mono h.1 hsub, ScopedAll.mono h.2 (Scope.append_subset_append _ hsub)⟩

end

/-- The names in scope after statements. -/
def scopeAfter (b : Binding α) (scope : Scope) (code : List (Code α)) : Scope :=
  code.foldl (fun scope c => c.introduces b ++ scope) scope

theorem subset_scopeAfter (scope : Scope) (code : List (Code α)) :
    scope ⊆ scopeAfter b scope code := by
  induction code generalizing scope with
  | nil => exact List.Subset.refl _
  | cons c rest ih => exact fun _ hx => ih _ (List.mem_append_right _ hx)

theorem scopeAfter_append (scope : Scope) (first second : List (Code α)) :
    scopeAfter b scope (first ++ second) = scopeAfter b (scopeAfter b scope first) second :=
  List.foldl_append

theorem ScopedAll.append {scope : Scope} {first second : List (Code α)}
    (hfirst : ScopedAll b scope first) (hsecond : ScopedAll b (scopeAfter b scope first) second) :
    ScopedAll b scope (first ++ second) := by
  induction first generalizing scope with
  | nil => exact hsecond
  | cons c rest ih => exact ⟨hfirst.1, ih hfirst.2 hsecond⟩

/-! ## Pieces of code -/

/-- A piece of code in a scope, and the numbers of the names that it introduces. -/
structure Sound (b : Binding α) (scope : Scope) (lo hi : Nat) (code : List (Code α)) : Prop where
  inScope : ScopedAll b scope code
  numbered : Numbered lo hi (introducedAll b code)

namespace Sound

variable {scope : Scope} {lo mid hi : Nat} {first second body orElse : List (Code α)}

theorem nil (h : lo ≤ hi) : Sound b scope lo hi [] := ⟨trivial, .nil h⟩

theorem mono {scope' : Scope} (h : Sound b scope lo hi first) (hsub : scope ⊆ scope') :
    Sound b scope' lo hi first := ⟨h.inScope.mono hsub, h.numbered⟩

theorem widen {lo' hi' : Nat} (h : Sound b scope lo hi first) (hlo : lo' ≤ lo) (hhi : hi ≤ hi') :
    Sound b scope lo' hi' first := ⟨h.inScope, h.numbered.widen hlo hhi⟩

/-- One piece after another; the second sees what the first introduces. -/
theorem andThen (hfirst : Sound b scope lo mid first)
    (hsecond : Sound b (scopeAfter b scope first) mid hi second) :
    Sound b scope lo hi (first ++ second) := by
  refine ⟨hfirst.inScope.append hsecond.inScope, ?_⟩
  rw [introducedAll_append]
  exact hfirst.numbered.append hsecond.numbered

theorem append (hfirst : Sound b scope lo mid first) (hsecond : Sound b scope mid hi second) :
    Sound b scope lo hi (first ++ second) :=
  hfirst.andThen (hsecond.mono (subset_scopeAfter _ _))

theorem line {l : α} (hmentions : ∀ m ∈ b.mentions l, m.In scope)
    (hintroduces : Numbered lo hi ((b.introduces l).map Prod.fst)) :
    Sound b scope lo hi [.line l] := by
  refine ⟨⟨hmentions, trivial⟩, ?_⟩
  rw [introducedAll, introduced, introducedAll, List.append_nil]
  exact hintroduces

/-- A line that introduces nothing. -/
theorem plainLine {l : α} (hmentions : ∀ m ∈ b.mentions l, m.In scope)
    (hintroduces : b.introduces l = []) (h : lo ≤ hi) : Sound b scope lo hi [.line l] :=
  .line hmentions (by rw [hintroduces]; exact .nil h)

/-- A block; its body sees what the head introduces. -/
theorem block {head : Head} (hmentions : ∀ m ∈ head.mentions, m.In scope)
    (hintroduces : Numbered lo mid (head.introduces.map Prod.fst))
    (hbody : Sound b (head.introduces ++ scope) mid hi body) :
    Sound b scope lo hi [.block head body] := by
  refine ⟨⟨⟨hmentions, hbody.inScope⟩, trivial⟩, ?_⟩
  rw [introducedAll, introduced, introducedAll, List.append_nil]
  exact hintroduces.append hbody.numbered

/-- The two arms of an optional value; the first one sees the name it is bound to. -/
theorem optional {name : Local} {source : Var}
    (hmentions : ∀ m ∈ source.place.mentions, m.In scope) (hname : Numbered lo mid [name.text])
    {hi' : Nat} (hbody : Sound b ((name.text, 0) :: scope) mid hi body)
    (hor : Sound b scope hi hi' orElse) :
    Sound b scope lo hi' [.optional name source body orElse] := by
  refine ⟨⟨⟨hmentions, hbody.inScope, hor.inScope⟩, trivial⟩, ?_⟩
  rw [introducedAll, introduced, introducedAll, List.append_nil]
  exact hname.append (hbody.numbered.append hor.numbered)

end Sound

end Code

/-! ## Steps of a generator -/

section

variable {σ τ α β : Type}

/-- If a step of a generator succeeds from a state that is seen as `n`, then its result and what is
seen of the state after it have a property. -/
def RunsFrom (view : σ → τ) (n : τ) (x : StateT σ (Except Fault) α) (Q : α → τ → Prop) : Prop :=
  ∀ p a p', view p = n → x p = .ok (a, p') → Q a (view p')

namespace RunsFrom

variable {view : σ → τ} {n : τ} {x : StateT σ (Except Fault) α}
  {f : α → StateT σ (Except Fault) β} {Q Q' : α → τ → Prop} {R : β → τ → Prop}

theorem imp (h : RunsFrom view n x Q) (hQ : ∀ a m, Q a m → Q' a m) : RunsFrom view n x Q' :=
  fun p a p' hp hrun => hQ a _ (h p a p' hp hrun)

theorem trivial (n : τ) (x : StateT σ (Except Fault) α) :
    RunsFrom view n x fun _ _ => True := fun _ _ _ _ _ => .intro

theorem pure {a : α} (h : Q a n) : RunsFrom view n (pure a) Q := by
  intro p b p' hp hrun
  obtain ⟨rfl, rfl⟩ := run_pure_eq_ok hrun
  rwa [hp]

theorem bind (hx : RunsFrom view n x Q) (hf : ∀ a m, Q a m → RunsFrom view m (f a) R) :
    RunsFrom view n (x >>= f) R := by
  intro p b p' hp hrun
  obtain ⟨a, q, hfirst, hsecond⟩ := run_bind_eq_ok hrun
  exact hf a _ (hx p a q hp hfirst) q b p' rfl hsecond

/-- A step after one that leads to a state of which all is known. -/
theorem bind_at {m : τ} {P : α → Prop} (hx : RunsFrom view n x fun a k => k = m ∧ P a)
    (hf : ∀ a, P a → RunsFrom view m (f a) R) : RunsFrom view n (x >>= f) R :=
  hx.bind fun a _ ha => ha.1 ▸ hf a ha.2

/-- A step after one that changes nothing of what is seen. -/
theorem bind_same (hx : RunsFrom view n x fun _ k => k = n)
    (hf : ∀ a, RunsFrom view n (f a) R) : RunsFrom view n (x >>= f) R :=
  hx.bind fun a _ hk => hk ▸ hf a

theorem bind_lift {e : Except Fault α} (hf : ∀ a, e = .ok a → RunsFrom view n (f a) R) :
    RunsFrom view n ((liftM e : StateT σ (Except Fault) α) >>= f) R := by
  refine bind_at (m := n) (P := fun a => e = .ok a) ?_ hf
  intro p b p' hp hrun
  obtain ⟨he, rfl⟩ := run_lift_eq_ok hrun
  exact ⟨hp, he⟩

end RunsFrom

end

end Packwright
