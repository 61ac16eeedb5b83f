import Packwright.Code.Marshal
import Packwright.Code.Msgsize

/-
  Generated functions as sequences of calls of their writer. Closing a block that was never opened
  leaves a writer's depth at zero and so goes unnoticed; `depthAfter?` counts levels as the writer
  does but gives none in that case. The calls of a tree of statements are balanced at any depth
  (`balanced_callsAll`), and so are those of a whole function (`balanced_implCalls`).
-/

namespace Packwright

namespace Writer

/-- A call of a writer. -/
inductive Call where
  | line (t : String)
  | blank
  | openBlock (header : String)
  | closeBlock
  | reopen (t : String)

/-- What a call does. -/
def Call.apply (w : Writer) : Call → Writer
  | line t => w.line t
  | blank => w.blank
  | openBlock header => w.openBlock header
  | closeBlock => w.closeBlock
  | reopen t => w.reopen t

/-- Makes calls in order. -/
def perform (w : Writer) (calls : List Call) : Writer := calls.foldl Call.apply w

/-- The depth after a call, unless it ends a block that was never opened. -/
def Call.depthAfter? (depth : Nat) : Call → Option Nat
  | line _ | blank => some depth
  | openBlock _ => some (depth + 1)
  | closeBlock => if 0 < depth then some (depth - 1) else none
  | reopen _ => if 0 < depth then some depth else none

/-- The depth after calls, unless one of them ends a block that was never opened. -/
def depthAfter? (depth : Nat) (calls : List Call) : Option Nat :=
  calls.foldlM Call.depthAfter? depth

/-- The calls end every block that they open, and no other. -/
def Balanced (calls : List Call) : Prop := ∀ depth, depthAfter? depth calls = some depth

theorem perform_cons (w : Writer) (c : Call) (rest : List Call) :
    w.perform (c :: rest) = (c.apply w).perform rest := rfl

theorem perform_append (w : Writer) (a b : List Call) :
    w.perform (a ++ b) = (w.perform a).perform b := List.foldl_append

theorem Call.depth_apply {w : Writer} {c : Call} {depth : Nat}
    (h : c.depthAfter? w.depth = some depth) : (c.apply w).depth = depth := by
  have hline (w : Writer) (t : String) : (w.line t).depth = w.depth := by
    unfold Writer.line
    split <;> rfl
  cases c with
  | line t => rw [apply, hline]; exact Option.some.inj h
  | blank => exact Option.some.inj h
  | openBlock header =>
    show (w.line _).depth + 1 = depth
    rw [hline]
    exact Option.some.inj h
  | closeBlock =>
    obtain ⟨-, hd⟩ := Option.ite_none_right_eq_some.1 h
    show (w.shallower.line _).depth = depth
    rw [hline]
    exact Option.some.inj hd
  | reopen t =>
    obtain ⟨hpos, hd⟩ := Option.ite_none_right_eq_some.1 h
    show (w.shallower.line _).depth + 1 = depth
    rw [hline, ← Option.some.inj hd]
    show w.depth - 1 + 1 = w.depth
    omega

/-- Where no call saturates, the depth that is counted is the depth of the writer. -/
theorem depth_perform {w : Writer} {calls : List Call} {depth : Nat}
    (h : depthAfter? w.depth calls = some depth) : (w.perform calls).depth = depth := by
  induction calls generalizing w with
  | nil => exact Option.some.inj h
  | cons c rest ih =>
    rw [depthAfter?, List.foldlM_cons] at h
    obtain ⟨d, hd, hrest⟩ := Option.bind_eq_some_iff.1 h
    rw [← Call.depth_apply hd] at hrest
    exact ih hrest

theorem depthAfter?_append (depth : Nat) (a b : List Call) :
    depthAfter? depth (a ++ b) = (depthAfter? depth a).bind fun d => depthAfter? d b :=
  List.foldlM_append

namespace Balanced

variable {a b : List Call}

theorem nil : Balanced [] := fun _ => rfl

theorem append (ha : Balanced a) (hb : Balanced b) : Balanced (a ++ b) := by
  intro depth
  rw [depthAfter?_append, ha depth]
  exact hb depth

theorem line (t : String) : Balanced [.line t] := fun _ => rfl

theorem blank : Balanced [.blank] := fun _ => rfl

/-- A block around balanced calls. -/
theorem block (header : String) (ha : Balanced a) :
    Balanced (.openBlock header :: (a ++ [.closeBlock])) := by
  intro depth
  show depthAfter? (depth + 1) (a ++ [.closeBlock]) = some depth
  rw [depthAfter?_append, ha (depth + 1)]
  rfl

/-- Two blocks, the second opened by the line that ends the first. -/
theorem blocks (header t : String) (ha : Balanced a) (hb : Balanced b) :
    Balanced (.openBlock header :: (a ++ .reopen t :: (b ++ [.closeBlock]))) := by
  intro depth
  show depthAfter? (depth + 1) (a ++ .reopen t :: (b ++ [.closeBlock])) = some depth
  rw [depthAfter?_append, ha (depth + 1)]
  show depthAfter? (depth + 1) (b ++ [.closeBlock]) = some depth
  rw [depthAfter?_append, hb (depth + 1)]
  rfl

end Balanced

end Writer

open Writer (Call Balanced)

/-! ## Statements -/

namespace Code

variable {α : Type}

mutual

/-- The calls that write a statement. -/
def calls (text : α → String) : Code α → List Call
  | line l => [.line (text l)]
  | block head body => .openBlock head.text :: (callsAll text body ++ [.closeBlock])
  | optional name source body orElse =>
    .openBlock (presentHead name source) ::
      (callsAll text body ++ .reopen otherwise :: (callsAll text orElse ++ [.closeBlock]))

/-- The calls that write statements. -/
def callsAll (text : α → String) : List (Code α) → List Call
  | [] => []
  | c :: rest => calls text c ++ callsAll text rest

end

mutual

theorem perform_calls {text : α → String} {writeLine : Writer → α → Writer}
    (hline : ∀ w l, writeLine w l = w.line (text l)) (c : Code α) (w : Writer) :
    w.perform (calls text c) = write writeLine w c := by
  cases c with
  | line l => exact (hline w l).symm
  | block head body =>
    show (w.openBlock head.text).perform (callsAll text body ++ [.closeBlock]) = _
    rw [Writer.perform_append, perform_callsAll hline body]
    rfl
  | optional name source body orElse =>
    show (w.openBlock (presentHead name source)).perform
      (callsAll text body ++ .reopen otherwise :: (callsAll text orElse ++ [.closeBlock])) = _
    rw [Writer.perform_append, perform_callsAll hline body]
    show (Writer.reopen _ otherwise).perform (callsAll text orElse ++ [.closeBlock]) = _
    rw [Writer.perform_append, perform_callsAll hline orElse]
    rfl

/-- The calls of statements write them. -/
theorem perform_callsAll {text : α → String} {writeLine : Writer → α → Writer}
    (hline : ∀ w l, writeLine w l = w.line (text l)) (code : List (Code α)) (w : Writer) :
    w.perform (callsAll text code) = writeAll writeLine w code := by
  cases code with
  | nil => rfl
  | cons c rest =>
    rw [callsAll, Writer.perform_append, perform_calls hline c, perform_callsAll hline rest]
    rfl

end

mutual

theorem balanced_calls (text : α → String) (c : Code α) : Balanced (calls text c) := by
  cases c with
  | line l => exact .line (text l)
  | block head body => exact .block head.text (balanced_callsAll text body)
  | optional name source body orElse =>
    exact .blocks (presentHead name source) otherwise (balanced_callsAll text body)
      (balanced_callsAll text orElse)

/-- Statements end every block that they open, and no other. -/
theorem balanced_callsAll (text : α → String) (code : List (Code α)) :
    Balanced (callsAll text code) := by
  cases code with
  | nil => exact .nil
  | cons c rest => exact (balanced_calls text c).append (balanced_callsAll text rest)

end

end Code

/-- The calls that write a documentation comment, if there are to be any. -/
def docCalls (c : Config) (t : String) : List Call :=
  if c.docs then [.line ("/// " ++ t)] else []

theorem perform_docCalls (c : Config) (t : String) (w : Writer) :
    w.perform (docCalls c t) = if c.docs then w.doc t else w := by
  unfold docCalls
  split <;> rfl

theorem balanced_docCalls (c : Config) (t : String) : Balanced (docCalls c t) := by
  unfold docCalls
  split
  · exact .line _
  · exact .nil

/-! ## Functions -/

namespace Marshal

/-- The calls that write the companion function, if there is one. -/
def companionCalls (c : Config) : Option Body → List Call
  | none => []
  | some code =>
    .blank ::
      (docCalls c "Flags each empty field in `isempty` and returns how many fields are in use." ++
        .openBlock "pub fn fields_not_empty(&self, isempty: &mut [bool]) -> u32" ::
          (Code.callsAll Line.text code ++ [.closeBlock]))

/-- The calls that write the function of an encoder. -/
def functionCalls (c : Config) (code : Body) : List Call :=
  docCalls c "Appends the MessagePack encoding of `self` to `b`." ++
    .openBlock "pub fn marshal_msg(&self, b: Vec<u8>) -> Result<Vec<u8>, msgp::Error>" ::
      ((.line "let mut o = msgp::require(b, self.msgsize());" ::
        (Code.callsAll Line.text code ++ [.line "Ok(o)"])) ++ [.closeBlock])

/-- The calls that write the encoder of an identity. -/
def implCalls (c : Config) (name : String) (code : Body) (side : Option Body) : List Call :=
  .openBlock ("impl " ++ name) ::
    ((functionCalls c code ++ companionCalls c side) ++ [.closeBlock])

theorem write_eq_line (w : Writer) (l : Line) : l.write w = w.line l.text := rfl

theorem perform_companionCalls (c : Config) (side : Option Body) (w : Writer) :
    w.perform (companionCalls c side) = writeCompanion c w side := by
  cases side with
  | none => rfl
  | some code =>
    simp only [companionCalls, Writer.perform_cons, Writer.perform_append, perform_docCalls,
      Code.perform_callsAll write_eq_line]
    rfl

theorem perform_implCalls (c : Config) (name : String) (code : Body) (side : Option Body)
    (w : Writer) : w.perform (implCalls c name code side) = (writeCompanion c (closeFunction
      (Code.writeAll Line.write (openImpl c name w) code)) side).closeBlock := by
  simp only [implCalls, functionCalls, Writer.perform_cons, Writer.perform_append,
    perform_docCalls, perform_companionCalls, Code.perform_callsAll write_eq_line]
  rfl

theorem balanced_implCalls (c : Config) (name : String) (code : Body) (side : Option Body) :
    Balanced (implCalls c name code side) := by
  have hcode := Code.balanced_callsAll Line.text code
  have hfunction : Balanced (functionCalls c code) :=
    (balanced_docCalls c _).append
      (.block _ ((Balanced.line _).append (hcode.append (.line _))))
  have hcompanion : Balanced (companionCalls c side) := by
    cases side with
    | none => exact .nil
    | some sideCode =>
      exact Balanced.blank.append ((balanced_docCalls c _).append
        (.block _ (Code.balanced_callsAll Line.text sideCode)))
  exact .block _ (hfunction.append hcompanion)

end Marshal

namespace Msgsize

/-- The text of a line. -/
def Line.text : Line → String
  | declare s => "let mut s: usize = " ++ s.text ++ ";"
  | add s => "s += " ++ s.text ++ ";"
  | giveSum => "s"
  | giveNumber n => Decimal.ofNat n

theorem write_eq_line (w : Writer) (l : Line) : l.write w = w.line l.text := by
  cases l <;> rfl

/-- The calls that write the size estimate of an identity. -/
def implCalls (c : Config) (name : String) (code : Body) : List Call :=
  .openBlock ("impl " ++ name) ::
    ((docCalls c "Upper bound on the number of bytes `marshal_msg` appends." ++
      .openBlock "pub fn msgsize(&self) -> usize" ::
        (Code.callsAll Line.text code ++ [.closeBlock])) ++ [.closeBlock])

theorem perform_implCalls (c : Config) (name : String) (code : Body) (w : Writer) :
    w.perform (implCalls c name code) =
      (Code.writeAll Line.write (openImpl c name w) code).closeBlock.closeBlock := by
  simp only [implCalls, Writer.perform_cons, Writer.perform_append, perform_docCalls,
    Code.perform_callsAll write_eq_line]
  rfl

theorem balanced_implCalls (c : Config) (name : String) (code : Body) :
    Balanced (implCalls c name code) :=
  .block _ ((balanced_docCalls c _).append (.block _ (Code.balanced_callsAll Line.text code)))

end Msgsize

end Packwright
