import Packwright.Proofs.OneLine

/-
  Fusion changes nothing but where constant bytes are cut. The encoder that is generated with
  fusion is followed in step with the one that is generated without: it holds back literals until
  other code comes (`fuse`), which is to concatenate the literals that stand next to each other
  (`fuse_eq_merge`), because everything that is written flushes first and so does every edge of a
  block. The texts of the two therefore have the same statements up to such concatenation, and in
  the fused one there is nothing left to concatenate (`render_fuse_transparent`).
-/

namespace Packwright

/-! ## Holding back literals -/

namespace Statement

/-- The literal of some bytes, if there are any. -/
def literals (bytes : Bytes) : List Statement := if bytes.isEmpty then [] else [literal bytes]

/-- Holds back literals until other code comes. Gives what is written and what is still held
back. -/
def fuse (held : Bytes) : List Statement → List Statement × Bytes
  | [] => ([], held)
  | literal b :: rest => fuse (held ++ b) rest
  | code t :: rest => (literals held ++ code t :: (fuse [] rest).1, (fuse [] rest).2)

theorem fuse_append (held : Bytes) (a b : List Statement) :
    fuse held (a ++ b) =
      ((fuse held a).1 ++ (fuse (fuse held a).2 b).1, (fuse (fuse held a).2 b).2) := by
  induction a generalizing held with
  | nil => rfl
  | cons s rest ih =>
    cases s with
    | literal c => exact ih (held ++ c)
    | code t => simp [fuse, ih]

theorem fuse_literals (held bytes : Bytes) : fuse held (literals bytes) = ([], held ++ bytes) := by
  cases bytes with
  | nil => simp [literals, fuse]
  | cons b rest => rfl

/-- Holding back is to concatenate. -/
theorem fuse_eq_merge {l : List Statement} (h : literal [] ∉ l) (held : Bytes) :
    (fuse held l).1 ++ literals (fuse held l).2 = merge (literals held ++ l) := by
  induction l generalizing held with
  | nil => cases held <;> rfl
  | cons s rest ih =>
    rw [List.mem_cons, not_or] at h
    obtain ⟨hs, hrest⟩ := h
    cases s with
    | code t =>
      have hwritten : merge (literals held) = literals held := by cases held <;> rfl
      have htail := ih hrest []
      rw [merge_append_code, hwritten]
      simpa [fuse, literals] using htail
    | literal b =>
      have hjoin : merge (literals (held ++ b) ++ rest) =
          merge (literals held ++ literal b :: rest) := by
        cases held with
        | nil =>
          cases b with
          | nil => exact absurd rfl hs
          | cons x b => rfl
        | cons y held => exact (join_join (y :: held) b (merge rest)).symm
      rw [← hjoin]
      exact ih hrest (held ++ b)

theorem bytes?_ne_nil (t : List Char) : bytes? t ≠ some [] := by
  intro h
  unfold bytes? at h
  split at h
  · obtain ⟨hi, -, h⟩ := Option.bind_eq_some_iff.1 h
    obtain ⟨lo, -, h⟩ := Option.bind_eq_some_iff.1 h
    split at h
    · cases h
    · obtain ⟨more, -, h⟩ := Option.bind_eq_some_iff.1 h
      cases h
    · cases h
  · cases h

/-- No literal on a line is empty. -/
theorem literal_nil_notMem_ofLines (lines : List String) : literal [] ∉ ofLines lines := by
  intro h
  obtain ⟨t, -, ht⟩ := List.mem_filterMap.1 h
  unfold ofLine? at ht
  dsimp only at ht
  split at ht
  · cases ht
  · split at ht
    · rename_i bytes hbytes
      cases ht
      unfold literal? at hbytes
      split at hbytes
      · exact bytes?_ne_nil _ hbytes
      · cases hbytes
    · cases ht

/-- Code makes way for what is held back. -/
theorem fuse_code {t : String} (h : IsCode t) (held : Bytes) (rest : List Statement) :
    fuse held (ofLines [t] ++ rest) =
      (literals held ++ (ofLines [t] ++ (fuse [] rest).1), (fuse [] rest).2) := by
  obtain ⟨u, hu⟩ := h
  have ht : ofLines [t] = [code u] := by simp [ofLines, hu]
  rw [ht]
  rfl

/-- Code in which there are no literals. -/
def Plain (l : List Statement) : Prop := ∀ s ∈ l, s.isLiteral = false

theorem Plain.append {a b : List Statement} (ha : Plain a) (hb : Plain b) : Plain (a ++ b) :=
  List.forall_mem_append.2 ⟨ha, hb⟩

theorem plain_of_isCode {t : String} (h : IsCode t) : Plain (ofLines [t]) := by
  obtain ⟨u, hu⟩ := h
  simp [Plain, ofLines, hu, isLiteral]

theorem fuse_plain {l : List Statement} (h : Plain l) : fuse [] l = (l, []) := by
  induction l with
  | nil => rfl
  | cons s rest ih =>
    obtain ⟨hs, hrest⟩ := List.forall_mem_cons.1 h
    cases s with
    | literal b => cases hs
    | code t =>
      rw [fuse, ih hrest]
      rfl

theorem merge_plain {l : List Statement} (h : Plain l) : merge l = l := by
  have hfuse := fuse_eq_merge (l := l) (fun hl => Bool.noConfusion (h _ hl)) []
  rw [fuse_plain h] at hfuse
  simpa [literals] using hfuse.symm

theorem merge_append_plain (a : List Statement) {l : List Statement} (h : Plain l) :
    merge (a ++ l) = merge a ++ l := by
  cases l with
  | nil => rw [List.append_nil, List.append_nil]
  | cons s rest =>
    obtain ⟨hs, hrest⟩ := List.forall_mem_cons.1 h
    cases s with
    | literal b => cases hs
    | code t => rw [merge_append_code, merge_plain hrest]

theorem merge_plain_append {a : List Statement} (h : Plain a) (l : List Statement) :
    merge (a ++ l) = a ++ merge l := by
  induction a with
  | nil => rfl
  | cons s rest ih =>
    obtain ⟨hs, hrest⟩ := List.forall_mem_cons.1 h
    cases s with
    | literal b => cases hs
    | code t => rw [List.cons_append, merge_cons, ih hrest, join_code, List.cons_append]

theorem fuse_code_end {t : String} (h : IsCode t) (held : Bytes) :
    fuse held (ofLines [t]) = (literals held ++ ofLines [t], []) := by
  have hcode := fuse_code h held []
  rw [List.append_nil] at hcode
  rw [hcode, fuse, List.append_nil]

end Statement

namespace Marshal

open Statement

/-! ## Reading literals -/

theorem digit?_digitChar {n : Nat} (h : n < 16) : Hex.digit? (Nat.digitChar n) = some n := by
  revert n
  decide

/-- A byte in a literal. -/
def byteText (b : UInt8) : List Char :=
  ['0', 'x', Nat.digitChar (b.toNat / 16), Nat.digitChar (b.toNat % 16)]

theorem toList_byteList (bytes : Bytes) :
    (byteList bytes).toList = [',', ' '].intercalate (bytes.map byteText) := by
  rw [byteList, String.toList_intercalate, List.map_map]
  have htext : (String.toList ∘ fun b : UInt8 => "0x" ++
      String.ofList [Nat.digitChar (b.toNat / 16), Nat.digitChar (b.toNat % 16)]) = byteText := by
    funext b
    simp [byteText]
  rw [htext]
  rfl

/-- The two digits of a byte are read as that byte. -/
theorem bytes?_byteText (b : UInt8) (rest : List Char) :
    bytes? (byteText b ++ rest) =
      match rest with
      | [']', ')', ';'] => some [b]
      | ',' :: ' ' :: more => (bytes? more).bind fun bytes => some (b :: bytes)
      | _ => none := by
  have hb : b.toNat < 256 := b.toNat_lt
  have hhi := digit?_digitChar (n := b.toNat / 16) (by omega)
  have hlo := digit?_digitChar (n := b.toNat % 16) (by omega)
  have hbyte : UInt8.ofNat (b.toNat / 16 * 16 + b.toNat % 16) = b := by
    rw [Nat.div_add_mod', UInt8.ofNat_toNat]
  simp only [byteText, List.cons_append, List.nil_append]
  rw [bytes?, hhi, hlo]
  simp only [Option.bind_eq_bind, Option.bind_some, hbyte]
  rfl

theorem bytes?_byteList {bytes : Bytes} (h : bytes ≠ []) :
    bytes? ((byteList bytes).toList ++ [']', ')', ';']) = some bytes := by
  rw [toList_byteList]
  induction bytes with
  | nil => exact absurd rfl h
  | cons b rest ih =>
    cases rest with
    | nil =>
      rw [List.map_singleton, List.intercalate_singleton, bytes?_byteText]
      rfl
    | cons b' rest =>
      have htail := ih (List.cons_ne_nil _ _)
      rw [List.map_cons] at htail
      rw [List.map_cons, List.map_cons, List.intercalate_cons_cons, List.append_assoc,
        List.append_assoc, bytes?_byteText]
      simp only [List.cons_append, List.nil_append]
      rw [htail]
      rfl

theorem ofLine?_literal {bytes : Bytes} (h : bytes ≠ []) :
    ofLine? (Line.literal bytes).text = some (literal bytes) := by
  have htext : (Line.literal bytes).text.toList =
      literalHead.toList ++ ((byteList bytes).toList ++ [']', ')', ';']) := by
    unfold Line.text
    simp [literalHead]
  have htrim : Blank.trim (Line.literal bytes).text = (Line.literal bytes).text := by
    have hends : (Line.literal bytes).text.toList = 'o' ::
        (literalHead.toList.tail ++ (byteList bytes).toList ++ [']', ')'] ++ [';']) := by
      rw [htext]
      simp [literalHead]
    exact Blank.trim_eq_self hends (by decide) (by decide)
  have hprefix : literalHead.toList.isPrefixOf (Line.literal bytes).text.toList = true := by
    rw [htext]
    exact List.isPrefixOf_iff_prefix.2 (List.prefix_append _ _)
  have hliteral : literal? (Line.literal bytes).text.toList = some bytes := by
    rw [literal?, if_pos hprefix, htext, List.drop_left, bytes?_byteList h]
  have hlong : ((Line.literal bytes).text.toList.isEmpty ||
      "//".toList.isPrefixOf (Line.literal bytes).text.toList) = false := by
    rw [htext]
    rfl
  rw [ofLine?, htrim]
  simp only [hlong, hliteral, Bool.false_eq_true, if_false]

/-! ## Reading other lines -/

theorem ofLine?_commentText (t : String) : ofLine? (Writer.commentText t) = none := by
  have hhead : (Writer.commentText t).toList = '/' :: '/' :: ' ' :: t.toList := by
    simp [Writer.commentText]
  exact ofLine?_comment hhead

/-- Lines that are neither empty nor comments nor literals. -/
def Line.IsDynamic : Line → Prop
  | blank | comment _ | notes _ | literal _ => False
  | _ => True

theorem isCode_flags (t : Tally) (rest : String) : IsCode (t.flags ++ rest) := by
  cases t with
  | computed => exact isCode_of_head? 'i' (by simp [Tally.flags]) (by decide)
  | outer => exact isCode_of_head? 'e' (by simp [Tally.flags]) (by decide)
  | nested number => exact isCode_of_head? 'e' (by simp [Tally.flags]) (by decide)

theorem isCode_count (t : Tally) (rest : String) : IsCode (t.count ++ rest) := by
  refine isCode_of_head? 'f' ?_ (by decide)
  cases t <;> simp [Tally.count]

theorem Line.IsDynamic.isCode_text {l : Line} (h : l.IsDynamic) : IsCode l.text := by
  unfold Line.text
  cases l with
  | blank | comment _ | notes _ | literal _ => exact h.elim
  | declareFlags t size => exact isCode_of_head? 'l' (by simp) (by decide)
  | computeTally t => exact isCode_of_head? 'l' (by simp) (by decide)
  | declareCount t live => exact isCode_of_head? 'l' (by simp) (by decide)
  | setFlag t index test =>
    cases test <;> simp only [Tally.flag, String.append_assoc] <;> exact isCode_flags t _
  | decrement t => exact isCode_count t _
  | giveCount t =>
    have hcount := isCode_count t ""
    rwa [String.append_empty] at hcount
  | delegate source =>
    -- the one line that begins like a literal; the second character tells
    have htext : ("o = " ++ source.text ++ ".marshal_msg(o)?;").toList =
        'o' :: ' ' :: ('=' :: ' ' :: (source.text.toList ++ ".marshal_msg(o)?;".toList)) := by
      simp
    refine isCode_of_prefix htext (by decide) ?_ ?_ <;> rw [htext] <;> intro hp
    · exact absurd (List.cons_prefix_cons.1 hp).1 (by decide)
    · exact absurd (List.cons_prefix_cons.1 (List.cons_prefix_cons.1 hp).2).1 (by decide)
  | mapKey kind key => cases kind <;> exact isCode_of_head? 'm' (by simp) (by decide)
  | _ => exact isCode_of_head? 'm' (by simp) (by decide)

theorem isCode_head (head : Head) : IsCode (head.text ++ " \x7b") := by
  cases head with
  | items item source => exact isCode_of_head? 'f' (by simp [Head.text]) (by decide)
  | entries number source => exact isCode_of_head? 'f' (by simp [Head.text]) (by decide)
  | ifFlag t index => exact isCode_of_head? 'i' (by simp [Head.text]) (by decide)
  | unlessFlag t index => exact isCode_of_head? 'i' (by simp [Head.text]) (by decide)

theorem isCode_presentHead (name : Local) (source : Var) :
    IsCode (Code.presentHead name source ++ " \x7b") :=
  isCode_of_head? 'i' (by simp [Code.presentHead]) (by decide)

theorem isCode_otherwise : IsCode Code.otherwise :=
  isCode_of_head? '\x7d' (by simp [Code.otherwise]) (by decide)

theorem isCode_close : IsCode "\x7d" := isCode_of_head? '\x7d' (by simp) (by decide)

/-- The statements of code. -/
def said (code : Body) : List Statement := ofLines (Code.linesAll Line.text code)

theorem said_append (a b : Body) : said (a ++ b) = said a ++ said b := by
  rw [said, Code.linesAll_append, ofLines_append]
  rfl

theorem said_cons (c : Code Line) (rest : Body) : said (c :: rest) = said [c] ++ said rest :=
  said_append [c] rest

theorem said_line (l : Line) : said [.line l] = ofLines [l.text] := rfl

theorem said_block (head : Head) (body : Body) :
    said [.block head body] =
      ofLines [head.text ++ " \x7b"] ++ (said body ++ ofLines ["\x7d"]) := by
  rw [said, said, ← ofLines_append, ← ofLines_append, Code.linesAll, Code.linesAll,
    Code.lines, List.append_nil]
  rfl

theorem said_optional (name : Local) (source : Var) (body orElse : Body) :
    said [.optional name source body orElse] =
      ofLines [Code.presentHead name source ++ " \x7b"] ++
        (said body ++ (ofLines [Code.otherwise] ++ (said orElse ++ ofLines ["\x7d"]))) := by
  rw [said, said, said, ← ofLines_append, ← ofLines_append, ← ofLines_append,
    ← ofLines_append, Code.linesAll, Code.linesAll, Code.lines, List.append_nil]
  rfl

/-! ## Generating in step -/

/-- One generator holds back bytes and the other nothing; otherwise they are in the same state. -/
structure InStep (held : Bytes) (p q : Pending) : Prop where
  held : p.fusion.pending = held
  nothing : q.fusion.pending = []
  names : p.names = q.names

/-- Both generators fail alike, or both go on. -/
inductive Agree {α β : Type} (Q : α → β → Bytes → Prop) :
    Except Fault (α × Pending) → Except Fault (β × Pending) → Prop where
  | fail (fault : Fault) : Agree Q (.error fault) (.error fault)
  | go {a : α} {b : β} {p q : Pending} {held : Bytes} (step : InStep held p q) (h : Q a b held) :
      Agree Q (.ok (a, p)) (.ok (b, q))

/-- Two generators in step agree, with a relation between their results and what the first holds
back then. -/
def Couple {α β : Type} (held : Bytes) (x : Emit α) (y : Emit β) (Q : α → β → Bytes → Prop) :
    Prop :=
  ∀ p q, InStep held p q → Agree Q (x p) (y q)

namespace Couple

variable {α β γ δ : Type} {held : Bytes} {x : Emit α} {y : Emit β} {Q : α → β → Bytes → Prop}
  {f : α → Emit γ} {g : β → Emit δ} {R : γ → δ → Bytes → Prop}

theorem pure {a : α} {b : β} (h : Q a b held) : Couple held (pure a) (pure b) Q :=
  fun _ _ hpq => .go hpq h

theorem bind (hx : Couple held x y Q) (hf : ∀ a b held', Q a b held' → Couple held' (f a) (g b) R) :
    Couple held (x >>= f) (y >>= g) R := by
  intro p q hpq
  have h := hx p q hpq
  change Agree R (x p >>= fun r => f r.1 r.2) (y q >>= fun r => g r.1 r.2)
  generalize x p = r at h
  generalize y q = r' at h
  cases h with
  | fail fault => exact .fail fault
  | go step h => exact hf _ _ _ h _ _ step

theorem lift (e : Except Fault α) :
    Couple held (liftM e : Emit α) (liftM e) fun a b held' => a = b ∧ held' = held := by
  intro p q hpq
  cases e with
  | error fault => exact .fail fault
  | ok a => exact .go hpq ⟨rfl, rfl⟩

end Couple

theorem couple_drawName (held : Bytes) :
    Couple held drawName drawName fun a b held' => a = b ∧ held' = held := by
  intro p q hpq
  have hnames : q.names = p.names := hpq.names.symm
  have hdraw : drawName q = .ok (p.names.draw.1, { q with names := p.names.draw.2 }) := by
    rw [← hnames]
    rfl
  rw [hdraw]
  exact .go ⟨hpq.held, hpq.nothing, rfl⟩ ⟨rfl, rfl⟩

theorem said_flush {p p' : Pending} {code : Body} (h : flush p = .ok (code, p')) :
    said code = literals p.fusion.pending ∧ p' = ⟨.empty, [], p.names⟩ := by
  rw [flush_eq] at h
  obtain ⟨rfl, rfl⟩ := Prod.mk.inj (Except.ok.inj h)
  refine ⟨?_, rfl⟩
  by_cases hempty : p.fusion.pending.isEmpty
  · rw [if_pos hempty, literals, if_pos hempty]
    rfl
  · have hliteral : said [.line (.literal p.fusion.pending)] = [literal p.fusion.pending] := by
      have hne : p.fusion.pending ≠ [] := fun he => hempty (by rw [he]; rfl)
      simp [said_line, ofLines, ofLine?_literal hne]
    have hnotes : said [.line (.notes p.notes)] = [] := by
      have hcomment : ofLine? (Line.notes p.notes).text = none := ofLine?_commentText _
      simp [said_line, ofLines, hcomment]
    rw [if_neg hempty, literals, if_neg hempty, said_append, hliteral]
    split
    · rfl
    · rw [hnotes]
      rfl

theorem couple_flush (held : Bytes) :
    Couple held flush flush fun a b held' => said a = literals held ∧ said b = [] ∧ held' = [] := by
  intro p q hpq
  obtain ⟨⟨a, p'⟩, hp⟩ : ∃ r, flush p = .ok r := ⟨_, flush_eq p⟩
  obtain ⟨⟨b, q'⟩, hq⟩ : ∃ r, flush q = .ok r := ⟨_, flush_eq q⟩
  obtain ⟨ha, rfl⟩ := said_flush hp
  obtain ⟨hb, rfl⟩ := said_flush hq
  rw [hpq.held] at ha
  rw [hpq.nothing] at hb
  rw [hp, hq]
  exact .go ⟨rfl, rfl, hpq.names⟩ ⟨ha, hb, rfl⟩

/-- In step, the first generator writes what the second writes, but holds back literals until
other code comes. -/
def Fuses (x y : Emit Body) : Prop :=
  ∀ held, Couple held x y fun a b held' => fuse held (said b) = (said a, held')

namespace Fuses

variable {x y x' y' : Emit Body}

theorem nothing : Fuses (pure []) (pure []) := fun _ => .pure rfl

theorem append (h : Fuses x y) (h' : Fuses x' y') :
    Fuses (do let a ← x; return a ++ (← x')) (do let b ← y; return b ++ (← y')) := by
  intro held
  refine (h held).bind fun a b held₁ hab => (h' held₁).bind fun a' b' held₂ hab' => .pure ?_
  rw [said_append, said_append, fuse_append, hab, hab']

theorem lift {α : Type} (e : Except Fault α) {f g : α → Emit Body} (h : ∀ a, Fuses (f a) (g a)) :
    Fuses ((liftM e : Emit α) >>= f) ((liftM e : Emit α) >>= g) := by
  intro held
  refine (Couple.lift e).bind fun a b held' hab => ?_
  obtain ⟨rfl, rfl⟩ := hab
  exact h a held'

theorem draw {f g : Nat → Emit Body} (h : ∀ n, Fuses (f n) (g n)) :
    Fuses (drawName >>= f) (drawName >>= g) := by
  intro held
  refine (couple_drawName held).bind fun a b held' hab => ?_
  obtain ⟨rfl, rfl⟩ := hab
  exact h a held'

end Fuses

theorem fuses_dynamic {l : Line} (h : l.IsDynamic) : Fuses (dynamic l) (dynamic l) := by
  intro held
  refine (couple_flush held).bind fun a b held' hab => .pure ?_
  obtain ⟨ha, hb, rfl⟩ := hab
  rw [said_append, said_append, ha, hb, said_line, List.nil_append, fuse_code_end h.isCode_text]

theorem fuses_block (head : Head) {x y : Emit Body} (h : Fuses x y) :
    Fuses (block head x) (block head y) := by
  intro held
  refine (couple_flush held).bind fun a b held₁ hab => ?_
  obtain ⟨ha, hb, rfl⟩ := hab
  refine (h []).bind fun inside inside' held₂ hinside => ?_
  refine (couple_flush held₂).bind fun c d held₃ hcd => .pure ?_
  obtain ⟨hc, hd, rfl⟩ := hcd
  have hinside' : fuse [] (said (inside' ++ d)) = (said inside, held₂) := by
    rw [said_append, hd, List.append_nil, hinside]
  rw [said_append, said_append, ha, hb, List.nil_append, said_block, said_block,
    fuse_code (isCode_head head), fuse_append, hinside', fuse_code_end isCode_close, said_append,
    hc]
  simp only [List.append_assoc]

theorem fuses_constant (c : Config) (note : Note) (bytes : Bytes) :
    Fuses (constant { c with fuse := true } note bytes)
      (constant { c with fuse := false } note bytes) := by
  intro held p q hpq
  let q' : Pending := { q with fusion := q.fusion.append bytes, notes := q.notes ++ [note] }
  obtain ⟨⟨b, q''⟩, hq⟩ : ∃ r, flush q' = .ok r := ⟨_, flush_eq q'⟩
  obtain ⟨hb, hq''⟩ := said_flush hq
  have hpending : q'.fusion.pending = bytes := by
    change q.fusion.pending ++ bytes = bytes
    rw [hpq.nothing, List.nil_append]
  have hplain : constant { c with fuse := false } note bytes q = .ok (b, q'') := hq
  rw [hpending] at hb
  rw [hplain, hq'']
  have hheld : (p.fusion.append bytes).pending = held ++ bytes := by
    rw [← hpq.held]
    rfl
  refine .go ⟨hheld, rfl, hpq.names⟩ ?_
  rw [hb, fuse_literals]
  rfl

theorem fuses_slotCode (c : Config) (layout : Layout) (t : Tally) (slot : Slot)
    {x y : Emit Body} (h : Fuses x y) :
    Fuses (slotCode { c with fuse := true } layout t slot x)
      (slotCode { c with fuse := false } layout t slot y) := by
  have hentry : Fuses (entryCode { c with fuse := true } layout slot x)
      (entryCode { c with fuse := false } layout slot y) :=
    (fuses_constant c (slotNote layout slot) slot.key).append h
  by_cases hm : layout.mode = .tuple
  · rwa [slotCode_tuple hm, slotCode_tuple hm]
  · rw [slotCode_entry hm, slotCode_entry hm]
    split
    · exact fuses_block _ hentry
    · exact hentry

theorem plain_line {l : Line} (h : l.IsDynamic) : Plain (said [.line l]) :=
  plain_of_isCode h.isCode_text

theorem plain_checks (layout : Layout) (v : Var) (t : Tally) :
    Plain (said (checks layout v t)) := by
  unfold checks
  induction layout.slots.filter Slot.conditional with
  | nil => exact fun _ h => absurd h List.not_mem_nil
  | cons slot rest ih =>
    rw [List.flatMap_cons, said_append]
    refine Plain.append ?_ ih
    split
    · rename_i test htest
      have hset := plain_line (l := .setFlag t slot.index (some test)) trivial
      have hblock : Plain (said [.block (.ifFlag t slot.index) [.line (.decrement t)]]) := by
        rw [said_block]
        exact (plain_of_isCode (isCode_head _)).append
          ((plain_line (l := .decrement t) trivial).append (plain_of_isCode isCode_close))
      rw [said_cons]
      exact hset.append hblock
    · exact plain_line (l := .setFlag t slot.index none) trivial

theorem said_tally (before : Body) (t : Tally) (size : Nat) (rest : Body) :
    said (before ++ .line .blank :: .line (.comment "honor the omitempty tags") ::
      .line (.declareFlags t size) :: rest) =
      said before ++ (ofLines [(Line.declareFlags t size).text] ++ said rest) := by
  have hblank : said [.line .blank] = [] := by decide
  have hcomment : said [.line (.comment "honor the omitempty tags")] = [] := by
    have hnone : ofLine? (Line.comment "honor the omitempty tags").text = none :=
      ofLine?_commentText _
    simp [said_line, ofLines, hnone]
  rw [said_append, said_cons, hblank, said_cons, hcomment, said_cons, said_line, List.nil_append,
    List.nil_append]

/-- The declaration of the flags makes way for what is held back, and behind it are no
literals. -/
theorem fuse_tally {held : Bytes} {before before' : Body} (h : said before = literals held)
    (h' : said before' = []) (t : Tally) (size : Nat) {rest : Body} (hrest : Plain (said rest)) :
    fuse held (said (before' ++ .line .blank :: .line (.comment "honor the omitempty tags") ::
      .line (.declareFlags t size) :: rest)) =
      (said (before ++ .line .blank :: .line (.comment "honor the omitempty tags") ::
        .line (.declareFlags t size) :: rest), []) := by
  have hflags : (Line.declareFlags t size).IsDynamic := trivial
  rw [said_tally, said_tally, h, h', List.nil_append, fuse_code hflags.isCode_text,
    fuse_plain hrest]

theorem couple_tallyCode (layout : Layout) (v : Var) (isTop : Bool) (held : Bytes) :
    Couple held (tallyCode layout v isTop) (tallyCode layout v isTop) fun a b held' =>
      a.1 = b.1 ∧ held' = [] ∧ fuse held (said b.2) = (said a.2, []) := by
  refine (couple_flush held).bind fun a b held' hab => ?_
  obtain ⟨ha, hb, rfl⟩ := hab
  split
  · refine .pure ⟨rfl, rfl, ?_⟩
    simp only [List.append_assoc]
    exact fuse_tally ha hb .outer _ (plain_line (l := .computeTally .outer) trivial)
  · refine (couple_drawName []).bind fun number number' held' hdraw => .pure ?_
    obtain ⟨rfl, rfl⟩ := hdraw
    refine ⟨rfl, rfl, ?_⟩
    have hcount := plain_line (l := .declareCount (.nested number) layout.live) trivial
    have hrest : Plain (said (.line (.declareCount (.nested number) layout.live) ::
        checks layout v (.nested number))) := by
      rw [said_cons]
      exact hcount.append (plain_checks layout v (.nested number))
    simp only [List.append_assoc]
    exact fuse_tally ha hb (.nested number) _ hrest

theorem fuses_identification (c : Config) (layout : Layout) :
    Fuses (identification { c with fuse := true } layout)
      (identification { c with fuse := false } layout) := by
  unfold identification
  split
  · exact fuses_constant c _ _
  · exact .nothing

theorem fuses_structCode (c : Config) (info : StructInfo) (fields : List Field) (v : Var)
    (isTop : Bool) {slots slots' : Layout → Tally → Emit Body}
    (h : ∀ layout t, Fuses (slots layout t) (slots' layout t)) :
    Fuses (structCode { c with fuse := true } info fields v isTop slots)
      (structCode { c with fuse := false } info fields v isTop slots') := by
  refine Fuses.lift (Layout.plan c.protocol info fields) fun layout => ?_
  cases hm : layout.mode with
  | tuple => exact (fuses_constant c _ _).append (h layout .outer)
  | static => exact (fuses_constant c _ _).append (h layout .outer)
  | fast | omitEmpty =>
    intro held
    refine (couple_tallyCode layout v isTop held).bind fun a b held₁ hab => ?_
    obtain ⟨ht, rfl, htally⟩ := hab
    obtain ⟨t, tally⟩ := a
    obtain ⟨t', tally'⟩ := b
    obtain rfl : t = t' := ht
    refine (fuses_identification c layout []).bind fun entry entry' held₂ hentry => ?_
    refine (h layout t held₂).bind fun rest rest' held₃ hrest => .pure ?_
    have hheader (fast : Bool) := fuse_plain (plain_line (l := .structHeader t fast) trivial)
    simp only [said_append, fuse_append, htally, hheader, hentry, hrest]

theorem fuses_fieldsCode {c : Config} (layout : Layout) (t : Tally) (v : Var) {fields : List Field}
    (h : ∀ f ∈ fields, ∀ v, Fuses (shapeCode { c with fuse := true } f.value v)
      (shapeCode { c with fuse := false } f.value v)) (index : Nat) :
    Fuses (fieldsCode { c with fuse := true } layout t v fields index)
      (fieldsCode { c with fuse := false } layout t v fields index) := by
  induction fields generalizing index with
  | nil => exact .nothing
  | cons f rest ih =>
    obtain ⟨info, value⟩ := f
    obtain ⟨hvalue, hrest⟩ := List.forall_mem_cons.1 h
    unfold fieldsCode
    split
    · exact ih hrest (index + 1)
    · exact (fuses_slotCode c layout t _ (hvalue (v.field info.name))).append
        (ih hrest (index + 1))

/-- The code of a shape with fusion is that without, with literals held back. -/
theorem fuses_shapeCode (c : Config) (s : Shape) (v : Var) :
    Fuses (shapeCode { c with fuse := true } s v) (shapeCode { c with fuse := false } s v) := by
  induction s generalizing v with
  | struct info fields ih =>
    exact fuses_structCode c info fields v false fun layout t =>
      fuses_fieldsCode layout t v (fun f hf v => ih f hf v) 0
  | map key value ih =>
    refine Fuses.draw fun number => ?_
    have hkey := fuses_dynamic (l := .mapKey key (keyLocal number)) trivial
    exact (fuses_dynamic (l := .mapHeader v.place) trivial).append
      (fuses_block _ (hkey.append (ih _)))
  | slice element ih =>
    refine Fuses.draw fun number => ?_
    exact (fuses_dynamic (l := .arrayHeader v.place) trivial).append (fuses_block _ (ih _))
  | array info element ih =>
    refine Fuses.lift info.resolvedSize fun size => ?_
    split
    · exact fuses_dynamic (l := .byteArray v.place) trivial
    · intro held
      refine (fuses_constant c _ _ held).bind fun header header' held₁ hheader => ?_
      refine (couple_drawName held₁).bind fun number number' held₂ hdraw => ?_
      obtain ⟨rfl, rfl⟩ := hdraw
      refine (fuses_block _ (ih _) held₂).bind fun loop loop' held₃ hloop => .pure ?_
      rw [said_append, said_append, fuse_append, hheader, hloop]
  | ptr pointee ih =>
    refine Fuses.draw fun number held => ?_
    refine (couple_flush held).bind fun before before' held₁ hbefore => ?_
    obtain ⟨hbefore, hbefore', rfl⟩ := hbefore
    refine (ih _ []).bind fun value value' held₂ hvalue => ?_
    refine (couple_flush held₂).bind fun after after' held₃ hafter => ?_
    obtain ⟨hafter, hafter', rfl⟩ := hafter
    refine (fuses_constant c .nil Wire.nil []).bind fun absent absent' held₄ habsent => ?_
    refine (couple_flush held₄).bind fun rest rest' held₅ hrest => .pure ?_
    obtain ⟨hrest, hrest', rfl⟩ := hrest
    have hpresent : fuse [] (said (value' ++ after')) = (said value, held₂) := by
      rw [said_append, hafter', List.append_nil, hvalue]
    have hnil : fuse [] (said (absent' ++ rest')) = (said absent, held₄) := by
      rw [said_append, hrest', List.append_nil, habsent]
    rw [said_append, said_append, hbefore, hbefore', List.nil_append, said_optional, said_optional,
      fuse_code (isCode_presentHead _ _), fuse_append, hpresent, fuse_code isCode_otherwise,
      fuse_append, hnil, fuse_code_end isCode_close, said_append, said_append, hafter, hrest]
    simp only [List.append_assoc]
  | base info =>
    unfold shapeCode scalarCode
    split <;> exact fuses_dynamic trivial

/-- The statements of an encoder with fusion are those without, with literals concatenated. -/
theorem couple_identityCode (c : Config) (s : Shape) :
    Couple [] (identityCode { c with fuse := true } s) (identityCode { c with fuse := false } s)
      fun a b _ => said a = merge (said b) := by
  have hflush {x y : Emit Body} (h : Fuses x y) :
      Couple [] (do let a ← x; return a ++ (← flush)) (do let b ← y; return b ++ (← flush))
        fun a b _ => said a = merge (said b) := by
    refine (h []).bind fun a b held hab => (couple_flush held).bind fun f f' held' hf => .pure ?_
    obtain ⟨hf, hf', rfl⟩ := hf
    have hmerge := fuse_eq_merge (literal_nil_notMem_ofLines (Code.linesAll Line.text b)) []
    rw [said_append, said_append, hf, hf', List.append_nil]
    rw [← said, hab] at hmerge
    exact hmerge
  obtain ⟨info, fields, rfl⟩ | hw := s.struct_or
  · exact hflush (fuses_structCode c info fields _ true fun layout t =>
      fuses_fieldsCode layout t _ (fun f _ v => fuses_shapeCode c f.value v) 0)
  · rw [identityCode_wrapped _ hw, identityCode_wrapped _ hw]
    exact hflush (fuses_shapeCode c s _)

theorem body_fuse (c : Config) (s : Shape) :
    (∃ fault, body { c with fuse := true } s = .error fault ∧
      body { c with fuse := false } s = .error fault) ∨
    ∃ code code', body { c with fuse := true } s = .ok code ∧
      body { c with fuse := false } s = .ok code' ∧ said code = merge (said code') := by
  have h := couple_identityCode c s {} {} ⟨rfl, rfl, rfl⟩
  have hrun (c : Config) : body c s = Prod.fst <$> identityCode c s {} := rfl
  rw [hrun, hrun]
  generalize identityCode { c with fuse := true } s {} = r at h
  generalize identityCode { c with fuse := false } s {} = r' at h
  cases h with
  | fail fault => exact .inl ⟨fault, rfl, rfl⟩
  | go step h => exact .inr ⟨_, _, rfl, rfl, h⟩

/-! ## The text of an encoder -/

/-- A step of writing that adds no literal, and no line that is broken. -/
def AddsCode (f : Writer → Writer) : Prop :=
  ∃ lines, Writer.Adds f lines ∧ (∀ t ∈ lines, Inline t) ∧ Plain (ofLines lines)

namespace AddsCode

variable {f g : Writer → Writer}

theorem nothing (h : ∀ w, (f w).text = w.text) : AddsCode f :=
  ⟨[], .nothing h, fun _ h => absurd h List.not_mem_nil, fun _ h => absurd h List.not_mem_nil⟩

theorem andThen (hf : AddsCode f) (hg : AddsCode g) : AddsCode fun w => g (f w) := by
  obtain ⟨lines, hf, hinline, hplain⟩ := hf
  obtain ⟨more, hg, hinline', hplain'⟩ := hg
  refine ⟨lines ++ more, hf.andThen hg, List.forall_mem_append.2 ⟨hinline, hinline'⟩, ?_⟩
  rw [ofLines_append]
  exact hplain.append hplain'

theorem one {t : String} (hf : Writer.Adds f [t]) (hinline : Inline t)
    (hplain : Plain (ofLines [t])) : AddsCode f :=
  ⟨[t], hf, List.forall_mem_singleton.2 hinline, hplain⟩

theorem code {t : String} (hf : Writer.Adds f [t]) (hinline : Inline t) (h : IsCode t) :
    AddsCode f :=
  one hf hinline (plain_of_isCode h)

theorem doc (c : Config) {t : String} (h : Inline t) :
    AddsCode fun w => if c.docs then w.doc t else w := by
  by_cases hdocs : c.docs = true
  · have hcomment : ofLine? ("/// " ++ t) = none := by
      have hhead : ("/// " ++ t).toList = '/' :: '/' :: '/' :: ' ' :: t.toList := by simp
      exact ofLine?_comment hhead
    have hplain : Plain (ofLines ["/// " ++ t]) := by simp [Plain, ofLines, hcomment]
    simp only [hdocs, if_true]
    exact one (.line ("/// " ++ t)) (inline_append.2 ⟨by simp [Inline], h⟩) hplain
  · simp only [hdocs]
    exact nothing fun _ => rfl

end AddsCode

theorem addsCode_openFunction (c : Config) : AddsCode (openFunction c) := by
  have hdoc := AddsCode.doc c (t := "Appends the MessagePack encoding of `self` to `b`.")
    (by simp [Inline])
  have hhead := AddsCode.code
    (.openBlock "pub fn marshal_msg(&self, b: Vec<u8>) -> Result<Vec<u8>, msgp::Error>")
    (by simp [Inline]) (isCode_of_head? 'p' (by simp) (by decide))
  have hreserve := AddsCode.code (.line "let mut o = msgp::require(b, self.msgsize());")
    (by simp [Inline]) (isCode_of_head? 'l' (by simp) (by decide))
  exact hdoc.andThen (hhead.andThen hreserve)

theorem addsCode_closeBlock : AddsCode Writer.closeBlock :=
  .code .closeBlock (by simp [Inline]) isCode_close

theorem addsCode_closeFunction : AddsCode closeFunction :=
  (AddsCode.code (.line "Ok(o)") (by simp [Inline])
    (isCode_of_head? 'O' (by simp) (by decide))).andThen addsCode_closeBlock

theorem plain_companion {c : Config} {s : Shape} {tests : Body}
    (h : companion c s = .ok (some tests)) : Plain (said tests) := by
  unfold companion at h
  split at h
  · obtain ⟨layout, -, h⟩ := bind_eq_ok h
    split at h
    · obtain rfl := Option.some.inj (Except.ok.inj h)
      have hcount := plain_line (l := .declareCount .computed layout.live) trivial
      have hgive := plain_line (l := .giveCount .computed) trivial
      rw [said_append, said_append]
      exact (hcount.append (plain_checks layout _ .computed)).append hgive
    · cases h
  · cases h

theorem addsCode_companion (c : Config) {s : Shape} (hs : s.Everywhere InlineNames)
    {side : Option Body} (h : companion c s = .ok side) :
    AddsCode fun w => writeCompanion c w side := by
  cases side with
  | none => exact .nothing fun _ => rfl
  | some tests =>
    have hempty : Plain (ofLines [""]) := by
      have hnothing : ofLines [""] = [] := by decide
      simp [Plain, hnothing]
    have hblank := AddsCode.one .blank (by simp [Inline]) hempty
    have hdoc := AddsCode.doc c
      (t := "Flags each empty field in `isempty` and returns how many fields are in use.")
      (by simp [Inline])
    have hhead := AddsCode.code
      (.openBlock "pub fn fields_not_empty(&self, isempty: &mut [bool]) -> u32")
      (by simp [Inline]) (isCode_of_head? 'p' (by simp) (by decide))
    have htests : AddsCode fun w => Code.writeAll Line.write w tests :=
      ⟨_, Code.adds_writeAll Line.text tests, neat_companion hs h, plain_companion h⟩
    exact hblank.andThen (hdoc.andThen (hhead.andThen (htests.andThen addsCode_closeBlock)))

/-- The line that opens the encoder of an identity. -/
def implHead (name : String) : String := "impl " ++ name ++ " \x7b\n"

theorem implHead_eq (name : String) : implHead name = "impl " ++ name ++ " \x7b" ++ "\n" := by
  simp only [implHead, String.append_assoc]
  rfl

theorem text_openImpl (i : Indent) (name : String) :
    ((Writer.new i).openBlock ("impl " ++ name)).text = implHead name := by
  have hne : ¬("impl " ++ name ++ " \x7b").isEmpty = true := by
    intro h
    have hlist := congrArg String.toList (String.isEmpty_iff.1 h)
    simp at hlist
  have hindent : i.text 0 = "" := rfl
  simp only [Writer.openBlock, Writer.deeper, Writer.line, if_neg hne, Writer.new, hindent,
    String.empty_append, implHead_eq]

/-- The text of an encoder is a line that names the identity, and below it some code, the
statements of the encoder, and some more code. -/
theorem exists_below (c : Config) (name : String) {side : Option Body}
    (hside : AddsCode fun w => writeCompanion c w side) :
    ∃ opening closing, Plain opening ∧ Plain closing ∧ ∀ code, Neat code →
      ∃ below, implText c name code side = implHead name ++ below ∧
        ofText below = opening ++ (said code ++ closing) := by
  obtain ⟨opening, hopen, hinline, hplain⟩ := addsCode_openFunction c
  obtain ⟨closing, hclose, hinline', hplain'⟩ :=
    addsCode_closeFunction.andThen (hside.andThen addsCode_closeBlock)
  refine ⟨ofLines opening, ofLines closing, hplain, hplain', fun code hcode => ?_⟩
  have hall := hopen.andThen ((Code.adds_writeAll Line.text code).andThen hclose)
  have hlines := List.forall_mem_append.2
    ⟨hinline, List.forall_mem_append.2 ⟨hcode, hinline'⟩⟩
  obtain ⟨below, htext, -, hbelow⟩ :=
    hall hlines ((Writer.new c.indent).openBlock ("impl " ++ name))
  refine ⟨below, ?_, ?_⟩
  · rw [text_openImpl] at htext
    exact htext
  · rw [hbelow, ofLines_append, ofLines_append]
    rfl

/-- With fusion and without, an encoder fails alike, or else its text has the same statements when
the literals that stand next to each other are concatenated. With fusion there are none: below the
line that names the identity, no two literals stand next to each other. -/
theorem render_fuse_transparent (c : Config) (name : String) (s : Shape)
    (hprintable : s.isPrintable = true) (hnames : s.Everywhere InlineNames) :
    (∃ fault, render { c with fuse := true } name s = .error fault ∧
      render { c with fuse := false } name s = .error fault) ∨
    ∃ fused plain,
      render { c with fuse := true } name s = .ok (some (implHead name ++ fused)) ∧
      render { c with fuse := false } name s = .ok (some (implHead name ++ plain)) ∧
      merge (ofText (implHead name ++ fused)) = merge (ofText (implHead name ++ plain)) ∧
      Separated (ofText fused) := by
  have hrender (b : Bool) : render { c with fuse := b } name s = do
      let code ← body { c with fuse := b } s
      let side ← companion c s
      return some (implText c name code side) := by
    simp only [render, hprintable]
    rfl
  rw [hrender, hrender]
  obtain ⟨fault, hfused, hplain⟩ | ⟨code, code', hfused, hplain, hsaid⟩ := body_fuse c s
  · exact .inl ⟨fault, by rw [hfused]; rfl, by rw [hplain]; rfl⟩
  rw [hfused, hplain, ok_bind, ok_bind]
  cases hside : companion c s with
  | error fault => exact .inl ⟨fault, rfl, rfl⟩
  | ok side =>
    obtain ⟨opening, closing, hopen, hclose, hbelow⟩ :=
      exists_below c name (addsCode_companion c hnames hside)
    obtain ⟨fused, hfusedText, hfused⟩ := hbelow code (neat_body hnames hfused)
    obtain ⟨plain, hplainText, hplain⟩ := hbelow code' (neat_body hnames hplain)
    have hmerge : ofText fused = merge (ofText plain) := by
      rw [hfused, hplain, merge_plain_append hopen, merge_append_plain _ hclose, hsaid]
    refine .inr ⟨fused, plain, ?_, ?_, ?_, ?_⟩
    · rw [← hfusedText]
      rfl
    · rw [← hplainText]
      rfl
    · have hwhole : Whole (implHead name) := .inr ⟨_, implHead_eq name⟩
      rw [ofText_append hwhole, ofText_append hwhole, hmerge, merge_append_merge]
    · rw [hmerge]
      exact separated_merge _

/-- A header, a key and the header of an array stand next to each other here, and bytes are held
back where an optional value begins, inside it and in its other arm. -/
def wagon : Shape := .struct { name := "Wagon" } [
  .mk { name := "axles" } (.array { size := "2", resolved := some 2 } (.ofKind .int16)),
  .mk { name := "cargo" } (.ptr (.struct { name := "Cargo", asTuple := true } [
    .mk { name := "label" } (.ofKind .string),
    .mk { name := "crates" } (.slice (.ptr (.ofKind .uint32)))]))]

theorem render_wagon_fuse_transparent :
    ∃ fused plain,
      render { protocol := .msgp2, fuse := true } "Wagon" wagon =
        .ok (some (implHead "Wagon" ++ fused)) ∧
      render { protocol := .msgp2, fuse := false } "Wagon" wagon =
        .ok (some (implHead "Wagon" ++ plain)) ∧
      merge (ofText (implHead "Wagon" ++ fused)) = merge (ofText (implHead "Wagon" ++ plain)) ∧
      Separated (ofText fused) := by
  have hnames : wagon.Everywhere InlineNames := by
    simp [wagon, Shape.Everywhere, Shape.EverywhereIn, InlineNames, Inline, Shape.ofKind]
  obtain ⟨fault, hfused, -⟩ | h :=
    render_fuse_transparent { protocol := .msgp2 } "Wagon" wagon rfl hnames
  · -- code is generated for it
    have hbody : (body { protocol := .msgp2, fuse := true } wagon).isOk = true := by
      decide +kernel
    have hside : (companion { protocol := .msgp2, fuse := true } wagon).isOk = true := by
      decide +kernel
    have hprintable : wagon.isPrintable = true := rfl
    obtain ⟨text, htext⟩ : ∃ text, render { protocol := .msgp2, fuse := true } "Wagon" wagon =
      .ok text := (exists_render hprintable).2 ⟨hbody, hside⟩
    rw [hfused] at htext
    cases htext
  · exact h

end Marshal

end Packwright
