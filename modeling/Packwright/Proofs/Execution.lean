import Packwright.Code.Condition
import Packwright.Code.Tree
import Packwright.Proofs.Conformance

/-
  Execution of generated code. A `Machine` says what the lines of a generated function do and how
  flags are read; loops, tests and the arms of an optional value are the same for all functions.
  Expressions denote a value together with the shape of its type, so that a call on a place of an
  identifier's type reaches the function of that identity.

  Code that the target language would reject, or that would stop at run time, ends in a `Trap`. A
  type of the user's own comes with conversions, which are parameters (`Conversions`).
-/

namespace Packwright

/-- Why execution of generated code stops. -/
inductive Trap where
  /-- A name that is not in scope. -/
  | unbound
  /-- A name that is declared already. -/
  | redeclared
  /-- An operation on a value of another type. -/
  | illTyped
  /-- An index beyond the end. -/
  | outOfRange
  /-- A number that does not fit its type. -/
  | overflow
  /-- A number below zero. -/
  | underflow
  /-- An identity that no code was generated for. -/
  | notGenerated
  /-- More calls inside each other than allowed. -/
  | tooDeep
deriving DecidableEq

/-- A value and the shape of its type. -/
structure Typed where
  shape : Shape
  value : Value

namespace Typed

/-- The field of a struct. -/
def field (x : Typed) (name : String) : Except Trap Typed :=
  match x.shape, x.value with
  | .struct _ fields, .record values =>
    match (Format.liveFields fields).find? fun f => f.info.name == name, Assoc.get? values name with
    | some f, some v => .ok ⟨f.value, v⟩
    | _, _ => .error .illTyped
  | _, _ => .error .illTyped

/-- The elements of a list. -/
def items (x : Typed) : Except Trap (List Typed) :=
  match x.shape, x.value with
  | .slice element, .array items | .array _ element, .array items =>
    .ok (items.map fun v => ⟨element, v⟩)
  | _, _ => .error .illTyped

/-- The entries of a map. -/
def entries (x : Typed) : Except Trap (List (Typed × Typed)) :=
  match x.shape, x.value with
  | .map key value, .map entries =>
    .ok (entries.map fun e => (⟨.ofKind key.kind, e.1⟩, ⟨value, e.2⟩))
  | _, _ => .error .illTyped

/-- What a pointer points to, if anything. -/
def pointee? (x : Typed) : Except Trap (Option Typed) :=
  match x.shape, x.value with
  | .ptr _, .nil => .ok none
  | .ptr pointee, v => .ok (some ⟨pointee, v⟩)
  | _, _ => .error .illTyped

end Typed

/-- What names stand for: the receiver and the local names in scope. -/
structure Env where
  self : Typed
  locals : Local → Option Typed := fun _ => none

/-- Brings a local name into scope. -/
def Env.bind (env : Env) (l : Local) (x : Typed) : Env :=
  { env with locals := fun l' => if l' = l then some x else env.locals l' }

/-- What a place denotes. -/
def Place.eval (env : Env) : Place → Except Trap Typed
  | self => match env.self.shape with
    | .struct _ _ => .ok env.self
    | _ => .error .illTyped
  | wrapped => match env.self.shape with
    | .struct _ _ => .error .illTyped
    | _ => .ok env.self
  | given _ => .error .unbound
  | bound l => match env.locals l with
    | some x => .ok x
    | none => .error .unbound
  | field base name => do (← base.eval env).field name

/-- Whether a place is a local name. -/
def Place.isLocal : Place → Bool
  | bound _ => true
  | _ => false

/-- What a variable denotes. Local names hold references, and nothing else does. -/
def Var.eval (env : Env) (v : Var) : Except Trap Typed :=
  if v.byRef = v.place.isLocal then v.place.eval env else .error .illTyped

/-- What a type of the user's own gives when it is converted to the type that it stands for, or is
seen as a text or as bytes. -/
structure Conversions where
  convert : String → Value → Value
  asText : Value → Value
  asBytes : Value → Value

/-- Values are given as those of the types that the user's own stand for, so conversions keep
them. -/
structure Conversions.Lawful (via : Conversions) : Prop where
  convert : ∀ type v, via.convert type v = v
  asText : ∀ v, via.asText v = v
  asBytes : ∀ v, via.asBytes v = v

/-- The conversions of a program without types of the user's own. -/
def Conversions.trivial : Conversions := ⟨fun _ v => v, id, id⟩

theorem Conversions.lawful_trivial : trivial.Lawful := ⟨fun _ _ => rfl, fun _ => rfl, fun _ => rfl⟩

/-- What an argument denotes. -/
def Arg.eval (via : Conversions) (env : Env) : Arg → Except Trap Typed
  | place p => p.eval env
  | value v | reference v => v.eval env
  | converted type v => do
    let x ← v.eval env
    return { x with value := via.convert type x.value }
  | asText v => do
    let x ← v.eval env
    return { x with value := via.asText x.value }
  | asBytes v => do
    let x ← v.eval env
    return { x with value := via.asBytes x.value }

/-- The environments in which the body of a block is run, one after another. -/
def Head.rounds (env : Env) (flag : Tally → Nat → Except Trap Bool) :
    Head → Except Trap (List Env)
  | items item source => do
    return (← (← source.eval env).items).map (env.bind item)
  | entries number source => do
    return (← (← source.eval env).entries).map fun e =>
      (env.bind (keyLocal number) e.1).bind (valueLocal number) e.2
  | ifFlag t index => do return if ← flag t index then [env] else []
  | unlessFlag t index => do return if ← flag t index then [] else [env]

/-- What the lines of a generated function do to a state. -/
structure Machine (α σ : Type) where
  line : Env → α → σ → Except Trap σ
  /-- The flag of a field. -/
  flag : σ → Tally → Nat → Except Trap Bool
  /-- The state at the end of a block without the names that it declared, by the state at its
  start. -/
  leave : σ → σ → σ

namespace Machine

variable {α σ : Type}

mutual

/-- Executes a statement. -/
def exec (m : Machine α σ) : Code α → Env → σ → Except Trap σ
  | .line l, env, st => m.line env l st
  | .block head body, env, st => do
    (← head.rounds env (m.flag st)).foldlM
      (fun st env => do return m.leave st (← m.execAll body env st)) st
  | .optional name source body orElse, env, st => do
    match ← (← source.eval env).pointee? with
    | some x => return m.leave st (← m.execAll body (env.bind name x) st)
    | none => return m.leave st (← m.execAll orElse env st)

/-- Executes statements in order. -/
def execAll (m : Machine α σ) : List (Code α) → Env → σ → Except Trap σ
  | [], _, st => .ok st
  | c :: rest, env, st => do m.execAll rest env (← m.exec c env st)

end

theorem execAll_append (m : Machine α σ) (code code' : List (Code α)) (env : Env) (st : σ) :
    m.execAll (code ++ code') env st = m.execAll code env st >>= m.execAll code' env := by
  induction code generalizing st with
  | nil => rfl
  | cons c rest ih =>
    rw [List.cons_append, execAll, execAll, bind_assoc]
    exact bind_congr fun st' => ih st'

theorem execAll_singleton (m : Machine α σ) (c : Code α) (env : Env) (st : σ) :
    m.execAll [c] env st = m.exec c env st := by
  rw [execAll]
  exact bind_pure _

theorem execAll_pair (m : Machine α σ) (c c' : Code α) (env : Env) (st : σ) :
    m.execAll [c, c'] env st = m.exec c env st >>= m.exec c' env := by
  rw [execAll]
  exact bind_congr fun st' => execAll_singleton m c' env st'

end Machine

/-! ## What variables denote -/

namespace Var

theorem eval_place {env : Env} {v : Var} {x : Typed} (h : v.eval env = .ok x) :
    v.place.eval env = .ok x := by
  unfold eval at h
  split at h
  · exact h
  · simp at h

theorem eval_ofLocal (env : Env) (l : Local) (x : Typed) :
    (ofLocal l).eval (env.bind l x) = .ok x := by
  simp [eval, ofLocal, Place.isLocal, Place.eval, Env.bind]

theorem eval_receiver (x : Typed) : (receiver x.shape).eval ⟨x, fun _ => none⟩ = .ok x := by
  obtain ⟨s, v⟩ := x
  cases s <;> rfl

theorem find?_name {live : List Field} (hnodup : (live.map fun f => f.info.name).Nodup) {f : Field}
    (hf : f ∈ live) : live.find? (fun g => g.info.name == f.info.name) = some f := by
  induction live with
  | nil => simp at hf
  | cons g rest ih =>
    rw [List.map_cons, List.nodup_cons] at hnodup
    rcases List.mem_cons.1 hf with rfl | hf
    · simp
    · have hne : g.info.name ≠ f.info.name := fun he =>
        hnodup.1 (List.mem_map.2 ⟨f, hf, he.symm⟩)
      rw [List.find?_cons_of_neg (by simpa using hne)]
      exact ih hnodup.2 hf

theorem eval_field {env : Env} {v : Var} {info : StructInfo} {fields : List Field}
    {values : List (String × Value)} (h : v.eval env = .ok ⟨.struct info fields, .record values⟩)
    (hnodup : ((Format.liveFields fields).map fun f => f.info.name).Nodup) {f : Field}
    (hf : f ∈ Format.liveFields fields) {w : Value}
    (hw : Assoc.get? values f.info.name = some w) :
    (v.field f.info.name).eval env = .ok ⟨f.value, w⟩ := by
  have hfind := find?_name hnodup hf
  simp [eval, field, Place.isLocal, Place.eval, eval_place h, ok_bind, Typed.field, hfind, hw]

/-- A live field of a conforming record. -/
theorem eval_field_of_conforms {t : Table} {env : Env} {v : Var} {info : StructInfo}
    {fields : List Field} {values : List (String × Value)}
    (hc : Conforms t (.struct info fields) (.record values))
    (hv : v.eval env = .ok ⟨.struct info fields, .record values⟩) {f : Field}
    (hf : f ∈ Format.liveFields fields) :
    (v.field f.info.name).eval env = .ok ⟨f.value, Encoder.heldFor values f⟩ ∧
      Conforms t f.value (Encoder.heldFor values f) ∧
      Assoc.get? values f.info.name = some (Encoder.heldFor values f) := by
  cases hc with
  | struct hnodup hheld heach =>
    have hget := Encoder.get?_heldFor (hheld f hf)
    exact ⟨eval_field hv hnodup hf hget, heach f hf _ hget, hget⟩

end Var

theorem Typed.pointee?_present {pointee : Shape} {v : Value} (h : v ≠ .nil) :
    (Typed.mk (.ptr pointee) v).pointee? = .ok (some ⟨pointee, v⟩) := by
  cases v with
  | nil => exact absurd rfl h
  | _ => rfl

theorem Arg.eval_arg {via : Conversions} (hvia : via.Lawful) {env : Env} {v : Var} {x : Typed}
    (h : v.eval env = .ok x) (info : BaseInfo) : (info.arg v).eval via env = .ok x := by
  unfold BaseInfo.arg
  repeat' split
  all_goals simp only [eval, h, ok_bind, hvia.convert, hvia.asText, hvia.asBytes, pure, Except.pure]

theorem Condition.eval_operand {via : Conversions} (hvia : via.Lawful) {env : Env} {v : Var}
    {x : Typed} (h : v.eval env = .ok x) (s : Shape) : (operand s v).eval via env = .ok x := by
  unfold operand
  repeat' split
  · exact Arg.eval_arg hvia h _
  · exact Var.eval_place h
  · exact Var.eval_place h

end Packwright
