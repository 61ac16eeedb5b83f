import Mathlib.Data.List.Chain
import Packwright.Code.Tree
import Packwright.Text.Characters
import Packwright.Text.Decimal

/-
  Generated code as a reader of its text sees it: a sequence of statements, one a line, without
  comments and empty lines. A statement that appends constant bytes is a `literal`; `merge`
  concatenates the literals that stand next to each other, and a sequence is `Separated` if none
  do. How deep a line is indented does not matter, so the statements of code are those on the
  lines of its tree (`adds_writeAll`).
-/

namespace Packwright

/-- A statement of generated code. -/
inductive Statement where
  /-- Appends constant bytes. -/
  | literal (bytes : Bytes)
  /-- Any other line, the edges of blocks included. -/
  | code (text : String)
deriving DecidableEq

namespace Statement

/-- What a literal begins with. -/
def literalHead : String := "o.extend_from_slice(&["

/-- Reads the bytes of a literal up to its end. -/
def bytes? : List Char → Option Bytes
  | '0' :: 'x' :: hi :: lo :: rest => do
    let b := UInt8.ofNat ((← Hex.digit? hi) * 16 + (← Hex.digit? lo))
    match rest with
    | [']', ')', ';'] => return [b]
    | ',' :: ' ' :: more => return b :: (← bytes? more)
    | _ => none
  | _ => none

/-- The bytes that a line appends, if it is a literal. -/
def literal? (line : List Char) : Option Bytes :=
  if literalHead.toList.isPrefixOf line then bytes? (line.drop literalHead.toList.length)
  else none

/-- The statement on a line, unless the line is empty or a comment. -/
def ofLine? (line : String) : Option Statement :=
  let text := Blank.trim line
  if text.toList.isEmpty || "//".toList.isPrefixOf text.toList then none
  else match literal? text.toList with
    | some bytes => some (literal bytes)
    | none => some (code text)

/-- The statements on lines. -/
def ofLines (lines : List String) : List Statement := lines.filterMap ofLine?

/-- The statements of a text. -/
def ofText (text : String) : List Statement :=
  ofLines ((text.toList.splitOn '\n').map String.ofList)

/-- Puts a statement in front of others; a literal is concatenated with a literal after it. -/
def join : Statement → List Statement → List Statement
  | literal a, literal b :: rest => literal (a ++ b) :: rest
  | s, rest => s :: rest

/-- Concatenates the literals that stand next to each other. -/
def merge (l : List Statement) : List Statement := l.foldr join []

/-- Whether a statement is a literal. -/
def isLiteral : Statement → Bool
  | literal _ => true
  | code _ => false

/-- No two literals stand next to each other. -/
def Separated (l : List Statement) : Prop :=
  l.IsChain fun a b => ¬(a.isLiteral = true ∧ b.isLiteral = true)

/-! ## Concatenating literals -/

theorem join_code (t : String) (l : List Statement) : join (code t) l = code t :: l := rfl

theorem join_join (a b : Bytes) (l : List Statement) :
    join (literal a) (join (literal b) l) = join (literal (a ++ b)) l := by
  cases l with
  | nil => rfl
  | cons s rest =>
    cases s with
    | literal c => simp [join]
    | code t => rfl

theorem merge_cons (s : Statement) (l : List Statement) : merge (s :: l) = join s (merge l) := rfl

theorem merge_join (s : Statement) (l : List Statement) : merge (join s l) = join s (merge l) := by
  cases s with
  | code t => rfl
  | literal a =>
    cases l with
    | nil => rfl
    | cons r rest =>
      cases r with
      | code t => rfl
      | literal b => exact (join_join a b (merge rest)).symm

theorem merge_merge (l : List Statement) : merge (merge l) = merge l := by
  induction l with
  | nil => rfl
  | cons s rest ih => rw [merge_cons, merge_join, ih]

/-- It does not matter whether literals at the end were concatenated before. -/
theorem merge_append_merge (a b : List Statement) : merge (a ++ merge b) = merge (a ++ b) := by
  rw [merge, List.foldr_append, ← merge, merge_merge, merge, ← List.foldr_append]
  rfl

theorem merge_append_code (a : List Statement) (t : String) (b : List Statement) :
    merge (a ++ code t :: b) = merge a ++ code t :: merge b := by
  induction a with
  | nil => rfl
  | cons s rest ih =>
    rw [List.cons_append, merge_cons, ih, merge_cons]
    cases s with
    | code u => rfl
    | literal c =>
      cases merge rest with
      | nil => rfl
      | cons r rest => cases r <;> rfl

theorem separated_join {s : Statement} {l : List Statement} (h : Separated l) :
    Separated (join s l) := by
  cases l with
  | nil => cases s <;> exact .singleton _
  | cons r rest =>
    cases s with
    | code t => exact .cons_cons (by simp [isLiteral]) h
    | literal a =>
      cases r with
      | code t => exact .cons_cons (by simp [isLiteral]) h
      | literal b =>
        -- the two become one literal, in the place of the second
        cases rest with
        | nil => exact .singleton _
        | cons r rest =>
          obtain ⟨hhead, htail⟩ := List.isChain_cons_cons.1 h
          exact .cons_cons hhead htail

theorem separated_merge (l : List Statement) : Separated (merge l) := by
  induction l with
  | nil => exact .nil
  | cons s rest ih => exact separated_join ih

/-! ## Lines -/

theorem ofLines_append (a b : List String) : ofLines (a ++ b) = ofLines a ++ ofLines b :=
  List.filterMap_append

theorem ofText_append_line (a b : String) : ofText (a ++ "\n" ++ b) = ofText a ++ ofText b := by
  have hbreak : (a ++ "\n" ++ b).toList = a.toList ++ '\n' :: b.toList := by simp
  rw [ofText, hbreak, List.splitOn_append_cons_self, List.map_append, ofLines_append]
  rfl

theorem ofText_empty : ofText "" = [] := by decide

end Statement

/-- A text without a line break. -/
abbrev Inline (t : String) : Prop := '\n' ∉ t.toList

theorem inline_append {a b : String} : Inline (a ++ b) ↔ Inline a ∧ Inline b := by
  simp [Inline]

namespace Statement

theorem ofText_inline {t : String} (h : Inline t) : ofText t = ofLines [t] := by
  rw [ofText, List.splitOn_eq_singleton h, List.map_singleton, String.ofList_toList]

/-- A text of whole lines. -/
def Whole (text : String) : Prop := text = "" ∨ ∃ a, text = a ++ "\n"

theorem Whole.append {a b : String} (ha : Whole a) (hb : Whole b) : Whole (a ++ b) := by
  rcases hb with rfl | ⟨b, rfl⟩
  · rwa [String.append_empty]
  · exact .inr ⟨a ++ b, String.append_assoc.symm⟩

theorem ofText_append {a : String} (ha : Whole a) (b : String) :
    ofText (a ++ b) = ofText a ++ ofText b := by
  rcases ha with rfl | ⟨a, rfl⟩
  · rw [String.empty_append, ofText_empty, List.nil_append]
  · have hwhole := ofText_append_line a ""
    rw [String.append_empty, ofText_empty, List.append_nil] at hwhole
    rw [ofText_append_line, hwhole]

end Statement

namespace Blank

theorem trim_append_of_blank {a : String} (h : ∀ c ∈ a.toList, isBlank c = true) (b : String) :
    trim (a ++ b) = trim b := by
  rw [trim, String.toList_append, List.dropWhile_append_of_pos h]
  rfl

theorem dropEnd_cons {c : Char} (hc : isBlank c = false) (rest : List Char) :
    ((c :: rest).reverse.dropWhile isBlank).reverse =
      c :: (rest.reverse.dropWhile isBlank).reverse := by
  have hkeep : [c].dropWhile isBlank = [c] := List.dropWhile_cons_of_neg (by simp [hc])
  rw [List.reverse_cons, List.dropWhile_append, hkeep]
  split
  · rename_i hempty
    rw [List.isEmpty_iff.1 hempty]
    rfl
  · rw [List.reverse_append]
    rfl

/-- If a text does not begin with white space, trimming takes nothing off its front. -/
theorem toList_trim {t : String} {c : Char} {rest : List Char} (h : t.toList = c :: rest)
    (hc : isBlank c = false) :
    (trim t).toList = c :: (rest.reverse.dropWhile isBlank).reverse := by
  rw [trim, h, List.dropWhile_cons_of_neg (by simp [hc]), String.toList_ofList, dropEnd_cons hc]

theorem trim_prefix {t : String} {c : Char} {rest : List Char} (h : t.toList = c :: rest)
    (hc : isBlank c = false) : (trim t).toList <+: t.toList := by
  rw [toList_trim h hc, h, List.cons_prefix_cons, ← List.reverse_suffix, List.reverse_reverse]
  exact ⟨rfl, List.dropWhile_suffix _⟩

theorem trim_eq_self {t : String} {c last : Char} {rest : List Char}
    (h : t.toList = c :: (rest ++ [last])) (hc : isBlank c = false) (hlast : isBlank last = false) :
    trim t = t := by
  refine String.toList_injective ?_
  rw [toList_trim h hc, List.reverse_append, List.reverse_singleton, List.singleton_append,
    List.dropWhile_cons_of_neg (by simp [hlast]), List.reverse_cons, List.reverse_reverse, h]

theorem isBlank_of_mem_indent {i : Indent} {depth : Nat} {c : Char}
    (h : c ∈ (i.text depth).toList) : isBlank c = true ∧ c ≠ '\n' := by
  rw [Indent.text, String.toList_ofList] at h
  obtain ⟨unit, hunit, hc⟩ := List.mem_flatten.1 h
  rw [List.eq_of_mem_replicate hunit] at hc
  cases i <;> simp only [Indent.unit, List.mem_cons, List.not_mem_nil, or_false, or_self] at hc <;>
    subst hc <;> decide

end Blank

namespace Statement

/-- What is on a line does not depend on its indentation. -/
theorem ofLine?_indent (i : Indent) (depth : Nat) (t : String) :
    ofLine? (i.text depth ++ t) = ofLine? t := by
  rw [ofLine?, Blank.trim_append_of_blank fun c hc => (Blank.isBlank_of_mem_indent hc).1]
  rfl

theorem ofLine?_comment {t : String} {rest : List Char} (h : t.toList = '/' :: '/' :: rest) :
    ofLine? t = none := by
  have hslash : Blank.isBlank '/' = false := by decide
  have htrim := Blank.toList_trim h hslash
  rw [Blank.dropEnd_cons hslash] at htrim
  rw [ofLine?, htrim]
  rfl

/-- A line that is neither empty nor a comment nor a literal. -/
def IsCode (t : String) : Prop := ∃ u, ofLine? t = some (code u)

theorem isCode_of_prefix {t : String} {c : Char} {rest : List Char} (h : t.toList = c :: rest)
    (hc : Blank.isBlank c = false) (hcomment : ¬"//".toList <+: t.toList)
    (hliteral : ¬literalHead.toList <+: t.toList) : IsCode t := by
  refine ⟨Blank.trim t, ?_⟩
  have htrim := Blank.trim_prefix h hc
  have hempty : (Blank.trim t).toList.isEmpty = false := by rw [Blank.toList_trim h hc]; rfl
  have hcomment : "//".toList.isPrefixOf (Blank.trim t).toList = false :=
    Bool.eq_false_iff.2 fun hp => hcomment ((List.isPrefixOf_iff_prefix.1 hp).trans htrim)
  have hliteral : literalHead.toList.isPrefixOf (Blank.trim t).toList = false :=
    Bool.eq_false_iff.2 fun hp => hliteral ((List.isPrefixOf_iff_prefix.1 hp).trans htrim)
  simp only [ofLine?, literal?, hempty, hcomment, hliteral, Bool.or_self, Bool.false_eq_true,
    if_false]

/-- Most lines are told from comments and literals by their first character. -/
theorem isCode_of_head? {t : String} (c : Char) (h : t.toList.head? = some c)
    (hc : Blank.isBlank c = false ∧ c ≠ '/' ∧ c ≠ 'o') : IsCode t := by
  obtain ⟨rest, ht⟩ := List.head?_eq_some_iff.1 h
  refine isCode_of_prefix ht hc.1 ?_ ?_ <;> rw [ht]
  · intro hp
    exact hc.2.1 (List.cons_prefix_cons.1 hp).1.symm
  · intro hp
    exact hc.2.2 (List.cons_prefix_cons.1 hp).1.symm

end Statement

/-! ## Writing -/

namespace Writer

/-- A step of writing adds whole lines. Their statements are those on the lines given here, if
none of these is broken. -/
def Adds (f : Writer → Writer) (lines : List String) : Prop :=
  (∀ t ∈ lines, Inline t) → ∀ w, ∃ added, (f w).text = w.text ++ added ∧ Statement.Whole added ∧
    Statement.ofText added = Statement.ofLines lines

namespace Adds

variable {f g : Writer → Writer} {lines more : List String}

theorem nothing (h : ∀ w, (f w).text = w.text) : Adds f [] := fun _ w =>
  ⟨"", by rw [h, String.append_empty], .inl rfl, Statement.ofText_empty⟩

theorem andThen (hf : Adds f lines) (hg : Adds g more) :
    Adds (fun w => g (f w)) (lines ++ more) := by
  intro hinline w
  obtain ⟨hlines, hmore⟩ := List.forall_mem_append.1 hinline
  obtain ⟨a, hatext, hawhole, ha⟩ := hf hlines w
  obtain ⟨b, hbtext, hbwhole, hb⟩ := hg hmore (f w)
  refine ⟨a ++ b, ?_, hawhole.append hbwhole, ?_⟩
  · rw [hbtext, hatext, String.append_assoc]
  · rw [Statement.ofText_append hawhole, ha, hb, Statement.ofLines_append]

theorem line (t : String) : Adds (fun w => w.line t) [t] := by
  intro hinline w
  have ht : Inline t := hinline t List.mem_cons_self
  unfold Writer.line
  split
  · rename_i hempty
    obtain rfl : t = "" := String.isEmpty_iff.1 hempty
    exact ⟨"\n", rfl, .inr ⟨"", rfl⟩, by decide⟩
  · refine ⟨w.indent.text w.depth ++ t ++ "\n", ?_, .inr ⟨_, rfl⟩, ?_⟩
    · simp only [String.append_assoc]
    · have hindent : Inline (w.indent.text w.depth ++ t) := inline_append.2
        ⟨fun hc => (Blank.isBlank_of_mem_indent hc).2 rfl, ht⟩
      have hline := Statement.ofText_append_line (w.indent.text w.depth ++ t) ""
      rw [String.append_empty, Statement.ofText_empty, List.append_nil,
        Statement.ofText_inline hindent] at hline
      rw [hline, Statement.ofLines, Statement.ofLines, List.filterMap_cons, List.filterMap_cons,
        Statement.ofLine?_indent]

theorem blank : Adds Writer.blank [""] := by
  intro _ w
  exact ⟨"\n", rfl, .inr ⟨"", rfl⟩, by decide⟩

theorem openBlock (header : String) :
    Adds (fun w => w.openBlock header) [header ++ " \x7b"] :=
  (line (header ++ " \x7b")).andThen (g := Writer.deeper) (nothing fun _ => rfl)

theorem closeWith (t : String) : Adds (fun w => w.closeWith t) [t] :=
  (nothing (f := Writer.shallower) fun _ => rfl).andThen (line t)

theorem closeBlock : Adds Writer.closeBlock ["\x7d"] := closeWith "\x7d"

theorem reopen (t : String) : Adds (fun w => w.reopen t) [t] :=
  (closeWith t).andThen (g := Writer.deeper) (nothing fun _ => rfl)

end Adds

end Writer

namespace Code

variable {α : Type}

mutual

/-- The lines of a statement that are not edges of blocks. -/
def leaves : Code α → List α
  | line l => [l]
  | block _ body => leavesAll body
  | optional _ _ body orElse => leavesAll body ++ leavesAll orElse

/-- The lines of statements that are not edges of blocks. -/
def leavesAll : List (Code α) → List α
  | [] => []
  | c :: rest => leaves c ++ leavesAll rest

end

@[simp] theorem leavesAll_nil : leavesAll ([] : List (Code α)) = [] := rfl

@[simp] theorem leavesAll_cons (c : Code α) (rest : List (Code α)) :
    leavesAll (c :: rest) = leaves c ++ leavesAll rest := rfl

@[simp] theorem leavesAll_append (a b : List (Code α)) :
    leavesAll (a ++ b) = leavesAll a ++ leavesAll b := by
  induction a with
  | nil => rfl
  | cons c rest ih => rw [List.cons_append, leavesAll_cons, leavesAll_cons, ih, List.append_assoc]

mutual

/-- The lines of a statement, without indentation. -/
def lines (text : α → String) : Code α → List String
  | line l => [text l]
  | block head body => (head.text ++ " \x7b") :: (linesAll text body ++ ["\x7d"])
  | optional name source body orElse =>
    (presentHead name source ++ " \x7b") ::
      (linesAll text body ++ otherwise :: (linesAll text orElse ++ ["\x7d"]))

/-- The lines of statements, without indentation. -/
def linesAll (text : α → String) : List (Code α) → List String
  | [] => []
  | c :: rest => lines text c ++ linesAll text rest

end

theorem linesAll_append (text : α → String) (a b : List (Code α)) :
    linesAll text (a ++ b) = linesAll text a ++ linesAll text b := by
  induction a with
  | nil => rfl
  | cons c rest ih => rw [List.cons_append, linesAll, linesAll, ih, List.append_assoc]

mutual

theorem adds_write (text : α → String) (c : Code α) :
    Writer.Adds (fun w => write (fun w l => w.line (text l)) w c) (lines text c) := by
  cases c with
  | line l => exact .line (text l)
  | block head body =>
    exact (Writer.Adds.openBlock head.text).andThen ((adds_writeAll text body).andThen .closeBlock)
  | optional name source body orElse =>
    have hsecond := (Writer.Adds.reopen otherwise).andThen
      ((adds_writeAll text orElse).andThen .closeBlock)
    exact (Writer.Adds.openBlock (presentHead name source)).andThen
      ((adds_writeAll text body).andThen hsecond)

/-- Writing code adds the lines of its tree. -/
theorem adds_writeAll (text : α → String) (code : List (Code α)) :
    Writer.Adds (fun w => writeAll (fun w l => w.line (text l)) w code) (linesAll text code) := by
  cases code with
  | nil => exact .nothing fun _ => rfl
  | cons c rest => exact (adds_write text c).andThen (adds_writeAll text rest)

end

end Code

end Packwright
