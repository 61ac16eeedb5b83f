import Mathlib.Data.List.TakeWhile
import Packwright.Json.Reader
import Packwright.Json.Writer

/-
  Tokens of JSON texts. Between a document and its text stand its tokens (`toTokens`), which do not
  depend on the layout. The lexer finds them in the text, however it is laid out (`lexes_chars`). It
  only learns that a number has ended from what stands behind it, so a text that ends in one is
  settled later (`Settles`).
-/

namespace Packwright

namespace Decimal

theorem toNat_digitChar {n : Nat} (h : n < 10) : (digitChar n).toNat = 48 + n := by
  revert n
  decide

theorem isDigit_digitChar {n : Nat} (h : n < 10) : isDigit (digitChar n) = true := by
  rw [isDigit, toNat_digitChar h]
  simp
  omega

theorem isDigit_of_mem_digits {n : Nat} {c : Char} (h : c ∈ digits n) : isDigit c = true := by
  induction n using Nat.strongRecOn with
  | ind n ih =>
    rw [digits] at h
    split at h
    · obtain rfl := List.mem_singleton.1 h
      exact isDigit_digitChar ‹_›
    · rcases List.mem_append.1 h with h | h
      · exact ih (n / 10) (by omega) h
      · obtain rfl := List.mem_singleton.1 h
        exact isDigit_digitChar (Nat.mod_lt n (by omega))

theorem value_append_digit (cs : List Char) {n : Nat} (h : n < 10) :
    value (cs ++ [digitChar n]) = value cs * 10 + n := by
  rw [value, List.foldl_append, List.foldl_cons, List.foldl_nil, toNat_digitChar h,
    Nat.add_sub_cancel_left]
  rfl

theorem value_digits (n : Nat) : value (digits n) = n := by
  induction n using Nat.strongRecOn with
  | ind n ih =>
    rw [digits]
    split
    · have h := value_append_digit [] (n := n) ‹_›
      rw [List.nil_append] at h
      rw [h]
      exact Nat.zero_add n
    · rw [value_append_digit _ (Nat.mod_lt n (by omega)), ih (n / 10) (by omega)]
      omega

theorem digits_ne_nil (n : Nat) : digits n ≠ [] := by
  rw [digits]
  split <;> simp

/-- A numeral has no leading zeros. -/
theorem digits_eq_zero {n : Nat} (h : (digits n).head? = some '0') : digits n = ['0'] := by
  induction n using Nat.strongRecOn with
  | ind n ih =>
    rw [digits] at h ⊢
    split at h
    · rw [if_pos ‹_›]
      simpa using h
    · have hhead : (digits (n / 10)).head? = some '0' := by
        obtain ⟨c, rest, hcons⟩ := List.exists_cons_of_ne_nil (digits_ne_nil (n / 10))
        rw [hcons] at h ⊢
        exact h
      have hvalue := value_digits (n / 10)
      rw [ih (n / 10) (by omega) hhead] at hvalue
      have hzero : n / 10 = 0 := hvalue.symm
      omega

end Decimal

namespace Json

/-! ## Documents -/

/-- Induction over documents, with one hypothesis for all members of a container. -/
@[elab_as_elim, induction_eliminator]
theorem inductionOn {motive : Json → Prop} (null : motive .null) (bool : ∀ b, motive (.bool b))
    (int : ∀ n, motive (.int n)) (real : ∀ literal, motive (.real literal))
    (str : ∀ s, motive (.str s)) (arr : ∀ items, (∀ v ∈ items, motive v) → motive (.arr items))
    (obj : ∀ members, (∀ m ∈ members, motive m.2) → motive (.obj members))
    (flawed : motive .flawed) (v : Json) : motive v :=
  @Json.rec motive (fun items => ∀ v ∈ items, motive v) (fun members => ∀ m ∈ members, motive m.2)
    (fun m => motive m.2) null bool int real str arr obj flawed
    (fun _ h => absurd h List.not_mem_nil)
    (fun _ _ h hs v hv => (List.mem_cons.1 hv).elim (fun e => e ▸ h) (hs v))
    (fun _ h => absurd h List.not_mem_nil)
    (fun _ _ h hs m hm => (List.mem_cons.1 hm).elim (fun e => e ▸ h) (hs m))
    (fun _ _ h => h) v

mutual

/-- The largest number of brackets that are open at once in the text of a document. -/
def depth : Json → Nat
  | arr items => itemsDepth items + 1
  | obj members => membersDepth members + 1
  | _ => 0

/-- The largest depth among the items of an array. -/
def itemsDepth : List Json → Nat
  | [] => 0
  | v :: rest => max v.depth (itemsDepth rest)

/-- The largest depth among the members of an object. -/
def membersDepth : List (String × Json) → Nat
  | [] => 0
  | (_, v) :: rest => max v.depth (membersDepth rest)

end

theorem itemsDepth_le {items : List Json} {n : Nat} :
    itemsDepth items ≤ n ↔ ∀ v ∈ items, v.depth ≤ n := by
  induction items with
  | nil => simp [itemsDepth]
  | cons v rest ih => rw [itemsDepth, Nat.max_le, ih, List.forall_mem_cons]

theorem membersDepth_le {members : List (String × Json)} {n : Nat} :
    membersDepth members ≤ n ↔ ∀ m ∈ members, m.2.depth ≤ n := by
  induction members with
  | nil => simp [membersDepth]
  | cons m rest ih => rw [membersDepth, Nat.max_le, ih, List.forall_mem_cons]

theorem depth_lt_arr {items : List Json} {v : Json} (h : v ∈ items) : v.depth < (arr items).depth :=
  Nat.lt_succ_of_le (itemsDepth_le.1 le_rfl v h)

theorem depth_lt_obj {members : List (String × Json)} {m : String × Json} (h : m ∈ members) :
    m.2.depth < (obj members).depth :=
  Nat.lt_succ_of_le (membersDepth_le.1 le_rfl m h)

/-- A document whose text determines it: every number in it is an integer of 64 bits, signed or
unsigned, and every value stands for something. -/
inductive Exact : Json → Prop where
  | null : Exact .null
  | bool (b : Bool) : Exact (.bool b)
  | int {n : Int} (fits : Int64.minValue.toInt ≤ n ∧ n < UInt64.size) : Exact (.int n)
  | str (s : String) : Exact (.str s)
  | arr {items : List Json} (all : ∀ v ∈ items, Exact v) : Exact (.arr items)
  | obj {members : List (String × Json)} (all : ∀ m ∈ members, Exact m.2) : Exact (.obj members)

attribute [simp] Exact.null Exact.bool Exact.str

@[simp] theorem exact_obj_nil : Exact (.obj []) := .obj fun _ h => absurd h List.not_mem_nil

@[simp] theorem exact_obj_cons {key : String} {v : Json} {rest : List (String × Json)} :
    Exact (.obj ((key, v) :: rest)) ↔ Exact v ∧ Exact (.obj rest) := by
  constructor
  · intro h
    cases h with
    | obj all =>
      obtain ⟨hv, hrest⟩ := List.forall_mem_cons.1 all
      exact ⟨hv, .obj hrest⟩
  · rintro ⟨hv, hrest⟩
    cases hrest with
    | obj all => exact .obj (List.forall_mem_cons.2 ⟨hv, all⟩)

theorem exact_natCast {n : Nat} (h : n < UInt64.size) : Exact (.int n) := by
  have hlow : Int64.minValue.toInt ≤ 0 := by decide
  exact .int ⟨by omega, by omega⟩

theorem exact_toInt (n : Int64) : Exact (.int n.toInt) := by
  have hhigh : n.toInt < 2 ^ 63 := n.toInt_lt
  have hsize : (2 : Int) ^ 63 < UInt64.size := by decide
  exact .int ⟨n.minValue_le_toInt, by omega⟩

theorem areItemsSound_iff {items : List Json} :
    areItemsSound items = true ↔ ∀ v ∈ items, v.isSound = true := by
  induction items with
  | nil => simp [areItemsSound]
  | cons v rest ih => simp [areItemsSound, ih]

theorem areMembersSound_iff {members : List (String × Json)} :
    areMembersSound members = true ↔ ∀ m ∈ members, m.2.isSound = true := by
  induction members with
  | nil => simp [areMembersSound]
  | cons m rest ih => simp [areMembersSound, ih]

theorem Exact.isSound {v : Json} (h : Exact v) : v.isSound = true := by
  induction h with
  | null => rfl
  | bool b => rfl
  | int fits => rfl
  | str s => rfl
  | arr all ih => exact areItemsSound_iff.2 ih
  | obj all ih => exact areMembersSound_iff.2 ih

mutual

/-- The tokens of a document. -/
def toTokens : Json → List Token
  | str s => [.str (some s)]
  | arr [] => [.openBracket, .closeBracket]
  | arr (v :: rest) => .openBracket :: (toTokens v ++ itemTokens rest ++ [.closeBracket])
  | obj [] => [.openBrace, .closeBrace]
  | obj ((key, v) :: rest) =>
    .openBrace :: .str (some key) :: .colon ::
      (toTokens v ++ memberTokens rest ++ [.closeBrace])
  | v => [.scalar v]

/-- The tokens of the further items of an array. -/
def itemTokens : List Json → List Token
  | [] => []
  | v :: rest => .comma :: (toTokens v ++ itemTokens rest)

/-- The tokens of the further members of an object. -/
def memberTokens : List (String × Json) → List Token
  | [] => []
  | (key, v) :: rest => .comma :: .str (some key) :: .colon :: (toTokens v ++ memberTokens rest)

end

/-! ## Tokens of a text -/

/-- The tokens that a state of the lexer comes to. A number or a word may still go on. -/
inductive Settles : Lexer → List Token → Prop where
  | between (tokens : List Token) : Settles ⟨.between, tokens⟩ tokens
  | bare {acc : List Char} {token : Token} (tokens : List Token)
      (word : bareToken? acc.reverse = some token) : Settles ⟨.bare acc, tokens⟩ (token :: tokens)

theorem Settles.step {l : Lexer} {tokens : List Token} (h : Settles l tokens) {c : Char}
    (hc : isBare c = false) : l.step c = Lexer.step ⟨.between, tokens⟩ c := by
  cases h with
  | between tokens => rfl
  | bare tokens word => simp [Lexer.step, hc, word]

theorem Settles.finish {l : Lexer} {tokens : List Token} (h : Settles l tokens) :
    l.finish = some tokens.reverse := by
  cases h with
  | between tokens => rfl
  | bare tokens word => simp [Lexer.finish, word]

/-- A text that has these tokens, the last of which may still go on. -/
def Lexes (cs : List Char) (tokens : List Token) : Prop :=
  ∀ before, ∃ l, cs.foldlM Lexer.step ⟨.between, before⟩ = some l ∧
    Settles l (tokens.reverse ++ before)

/-- A text that has these tokens, the last of which has ended. -/
def Closes (cs : List Char) (tokens : List Token) : Prop :=
  ∀ before, cs.foldlM Lexer.step ⟨.between, before⟩ = some ⟨.between, tokens.reverse ++ before⟩

/-- A text whose first character ends a number or a word. -/
def Divides (cs : List Char) : Prop := ∃ c rest, cs = c :: rest ∧ isBare c = false

section

variable {cs ds : List Char} {ts us : List Token}

theorem Closes.lexes (h : Closes cs ts) : Lexes cs ts := fun before => ⟨_, h before, .between _⟩

theorem Closes.append (h : Closes cs ts) (h' : Closes ds us) : Closes (cs ++ ds) (ts ++ us) := by
  intro before
  rw [List.foldlM_append, h before]
  change ds.foldlM Lexer.step _ = _
  rw [h' (ts.reverse ++ before), List.reverse_append, List.append_assoc]

theorem Closes.before (h : Closes cs ts) (h' : Lexes ds us) : Lexes (cs ++ ds) (ts ++ us) := by
  intro before
  obtain ⟨l, hl, hsettles⟩ := h' (ts.reverse ++ before)
  refine ⟨l, ?_, by rwa [List.reverse_append, List.append_assoc]⟩
  rw [List.foldlM_append, h before]
  exact hl

theorem Lexes.close (h : Lexes cs ts) (h' : Closes ds us) (hd : Divides ds) :
    Closes (cs ++ ds) (ts ++ us) := by
  intro before
  obtain ⟨l, hl, hsettles⟩ := h before
  obtain ⟨d, rest, rfl, hd⟩ := hd
  have hrest := h' (ts.reverse ++ before)
  rw [List.foldlM_append, hl]
  change (d :: rest).foldlM Lexer.step l = _
  rw [List.foldlM_cons, hsettles.step hd, ← List.foldlM_cons, hrest, List.reverse_append,
    List.append_assoc]

/-- What the lexer makes of a text that is all there is. -/
theorem Lexes.tokens? (h : Lexes cs ts) : tokens? cs = some ts := by
  obtain ⟨l, hl, hsettles⟩ := h []
  rw [Json.tokens?, hl]
  change l.finish = _
  rw [hsettles.finish, List.append_nil, List.reverse_reverse]

theorem closes_nil : Closes [] [] := fun _ => rfl

end

/-! ## Pieces of a text -/

theorem closes_openBrace : Closes ['\x7b'] [.openBrace] := fun _ => rfl

theorem closes_closeBrace : Closes ['\x7d'] [.closeBrace] := fun _ => rfl

theorem closes_openBracket : Closes ['['] [.openBracket] := fun _ => rfl

theorem closes_closeBracket : Closes [']'] [.closeBracket] := fun _ => rfl

theorem closes_colon : Closes [':'] [.colon] := fun _ => rfl

theorem closes_comma : Closes [','] [.comma] := fun _ => rfl

/-- Blanks divide tokens and are none. -/
theorem closes_blanks {cs : List Char} (h : ∀ c ∈ cs, c = ' ' ∨ c = '\n') : Closes cs [] := by
  induction cs with
  | nil => exact closes_nil
  | cons c rest ih =>
    obtain ⟨hc, hrest⟩ := List.forall_mem_cons.1 h
    have hone : Closes [c] [] := by
      rcases hc with rfl | rfl
      · exact fun _ => rfl
      · exact fun _ => rfl
    exact hone.append (ih hrest)

theorem stepBetween_bare (tokens : List Token) {c : Char} (h : isBare c = true) :
    Lexer.stepBetween tokens c = some ⟨.bare [c], tokens⟩ := by
  have hne : ∀ d : Char, isBare d = false → c ≠ d := by
    rintro d hd rfl
    exact absurd (h.symm.trans hd) (by simp)
  unfold Lexer.stepBetween
  simp [hne ' ' (by decide), hne '\t' (by decide), hne '\n' (by decide), hne '\r' (by decide),
    hne '\x7b' (by decide), hne '\x7d' (by decide), hne '[' (by decide), hne ']' (by decide),
    hne ':' (by decide), hne ',' (by decide), hne '"' (by decide), h]

theorem foldlM_bare (tokens : List Token) {cs : List Char} (h : ∀ c ∈ cs, isBare c = true)
    (acc : List Char) :
    cs.foldlM Lexer.step ⟨.bare acc, tokens⟩ = some ⟨.bare (cs.reverse ++ acc), tokens⟩ := by
  induction cs generalizing acc with
  | nil => rfl
  | cons c rest ih =>
    obtain ⟨hc, hrest⟩ := List.forall_mem_cons.1 h
    have hstep : Lexer.step ⟨.bare acc, tokens⟩ c = some ⟨.bare (c :: acc), tokens⟩ := by
      simp [Lexer.step, hc]
    rw [List.foldlM_cons, hstep]
    change rest.foldlM Lexer.step _ = _
    rw [ih hrest, List.reverse_cons, List.append_assoc]
    rfl

/-- A number or a word. -/
theorem lexes_word {word : List Char} {token : Token} (h : ∀ c ∈ word, isBare c = true)
    (htoken : bareToken? word = some token) (hne : word ≠ []) : Lexes word [token] := by
  intro before
  obtain ⟨c, rest, rfl⟩ := List.exists_cons_of_ne_nil hne
  obtain ⟨hc, hrest⟩ := List.forall_mem_cons.1 h
  refine ⟨⟨.bare (rest.reverse ++ [c]), before⟩, ?_, .bare before (by simpa using htoken)⟩
  have hstep : Lexer.step ⟨.between, before⟩ c = some ⟨.bare [c], before⟩ :=
    stepBetween_bare before hc
  rw [List.foldlM_cons, hstep]
  exact foldlM_bare before hrest [c]

/-! ### Numbers -/

theorem digitRun?_digits (n : Nat) :
    digitRun? (Decimal.digits n) = some (Decimal.digits n, []) := by
  have hall : ∀ c ∈ Decimal.digits n, Decimal.isDigit c = true :=
    fun _ => Decimal.isDigit_of_mem_digits
  have htake : (Decimal.digits n).takeWhile Decimal.isDigit = Decimal.digits n :=
    List.takeWhile_eq_self_iff.2 hall
  have hdrop : (Decimal.digits n).dropWhile Decimal.isDigit = [] :=
    List.dropWhile_eq_nil_iff.2 hall
  rw [digitRun?, htake, hdrop]
  cases h : Decimal.digits n with
  | nil => exact absurd h (Decimal.digits_ne_nil n)
  | cons c rest => rfl

theorem digits_ne_minus (n : Nat) (rest : List Char) : Decimal.digits n ≠ '-' :: rest := by
  intro h
  have hminus : Decimal.isDigit '-' = true :=
    Decimal.isDigit_of_mem_digits (n := n) (by rw [h]; exact List.mem_cons_self)
  exact absurd hminus (by decide)

/-- The parts of a numeral behind its sign. -/
theorem literal?_of_sign {text : List Char} {negative : Bool} {n : Nat}
    (h : literal? text = (do
      let (whole, rest) ← digitRun? (Decimal.digits n)
      if whole.head? = some '0' ∧ whole ≠ ['0'] then none
      let (fraction, rest) ← fraction? rest
      let (exponent, rest) ← exponent? rest
      if rest ≠ [] then none
      return { negative, whole, fraction, exponent })) :
    literal? text = some ⟨negative, Decimal.digits n, none, none⟩ := by
  have hzero : ¬((Decimal.digits n).head? = some '0' ∧ Decimal.digits n ≠ ['0']) :=
    fun h => h.2 (Decimal.digits_eq_zero h.1)
  rw [h, digitRun?_digits]
  simp only [Option.bind_eq_bind, Option.bind_some, if_neg hzero]
  rfl

theorem literal?_digits (n : Nat) :
    literal? (Decimal.digits n) = some ⟨false, Decimal.digits n, none, none⟩ := by
  refine literal?_of_sign ?_
  unfold literal?
  split
  rename_i heq
  split at heq
  · exact absurd ‹_› (digits_ne_minus n _)
  · obtain ⟨rfl, rfl⟩ := Prod.mk.inj heq
    rfl

theorem literal?_minus_digits (n : Nat) :
    literal? ('-' :: Decimal.digits n) = some ⟨true, Decimal.digits n, none, none⟩ :=
  literal?_of_sign rfl

theorem integer?_digits {negative : Bool} {n : Nat} {m : Int} (hne : negative = true → n ≠ 0)
    (hm : (if negative = true then -(n : Int) else n) = m)
    (h : Int64.minValue.toInt ≤ m ∧ m < UInt64.size) :
    (⟨negative, Decimal.digits n, none, none⟩ : Literal).integer? = some m := by
  have hzero : ¬(!Literal.isInteger ⟨negative, Decimal.digits n, none, none⟩ ||
      (negative && (n : Int) == 0)) = true := by
    simpa [Literal.isInteger] using hne
  simp only [Literal.integer?, Decimal.value_digits]
  rw [if_neg hzero, hm, if_pos h]

theorem number?_of_integer? {text : List Char} {l : Literal} {n : Int}
    (hl : literal? text = some l) (hn : l.integer? = some n) : number? text = some (.int n) := by
  rw [number?, hl]
  simp only [Option.bind_eq_bind, Option.bind_some, hn]
  rfl

theorem number?_intDigits {n : Int} (h : Int64.minValue.toInt ≤ n ∧ n < UInt64.size) :
    number? (Decimal.intDigits n) = some (.int n) := by
  cases n with
  | ofNat n => exact number?_of_integer? (literal?_digits n) (integer?_digits nofun rfl h)
  | negSucc n =>
    exact number?_of_integer? (literal?_minus_digits (n + 1))
      (integer?_digits (fun _ => Nat.succ_ne_zero n) rfl h)

theorem isBare_of_isDigit {c : Char} (h : Decimal.isDigit c = true) : isBare c = true := by
  simp [isBare, h]

theorem isBare_of_mem_intDigits {n : Int} {c : Char} (h : c ∈ Decimal.intDigits n) :
    isBare c = true := by
  cases n with
  | ofNat n => exact isBare_of_isDigit (Decimal.isDigit_of_mem_digits h)
  | negSucc n =>
    rcases List.mem_cons.1 h with rfl | h
    · decide
    · exact isBare_of_isDigit (Decimal.isDigit_of_mem_digits h)

theorem lexes_int {n : Int} (h : Int64.minValue.toInt ≤ n ∧ n < UInt64.size) :
    Lexes (Decimal.intDigits n) [.scalar (.int n)] := by
  -- a numeral begins with a digit or a sign, so it is none of the words
  have hword : ∀ c rest, isBare c = true → Decimal.isDigit c = false → c ≠ '-' →
      Decimal.intDigits n ≠ c :: rest := by
    rintro c rest - hdigit hminus heq
    cases n with
    | ofNat n =>
      have hc : Decimal.isDigit c = true :=
        Decimal.isDigit_of_mem_digits (n := n) (by
          have hdigits : Decimal.digits n = c :: rest := heq
          rw [hdigits]
          exact List.mem_cons_self)
      exact absurd (hc.symm.trans hdigit) (by simp)
    | negSucc n => exact hminus (List.cons.inj heq).1.symm
  refine lexes_word (fun _ => isBare_of_mem_intDigits) ?_ ?_
  · rw [bareToken?, if_neg (hword 't' _ rfl rfl (by decide)),
      if_neg (hword 'f' _ rfl rfl (by decide)), if_neg (hword 'n' _ rfl rfl (by decide)),
      number?_intDigits h]
    rfl
  · cases n with
    | ofNat n => exact Decimal.digits_ne_nil n
    | negSucc n => exact List.cons_ne_nil _ _

/-! ### Strings -/

theorem digit?_hexChar {n : Nat} (h : n < 16) : Hex.digit? (hexChar n) = some n := by
  revert n
  decide

/-- Characters of a string, escaped or not, are kept by their numbers. -/
theorem foldlM_escapeChar (tokens : List Token) (acc : List Nat) (c : Char) :
    (escapeChar c).foldlM Lexer.step ⟨.text acc, tokens⟩ =
      some ⟨.text (c.toNat :: acc), tokens⟩ := by
  by_cases hshort : c ∈ ['"', '\\', '\x08', '\x0c', '\n', '\r', '\t']
  · -- a backslash and a letter for it
    simp only [List.mem_cons, List.not_mem_nil, or_false] at hshort
    rcases hshort with rfl | rfl | rfl | rfl | rfl | rfl | rfl <;> rfl
  simp only [List.mem_cons, List.not_mem_nil, or_false, not_or] at hshort
  simp only [escapeChar, hshort, if_false]
  split
  · -- four hexadecimal digits, the first two of which are zero
    have hhigh := digit?_hexChar (n := c.toNat / 16) (by omega)
    have hlow := digit?_hexChar (n := c.toNat % 16) (by omega)
    have hzero : Hex.digit? '0' = some 0 := rfl
    have hnumber : c.toNat / 16 * 16 + c.toNat % 16 = c.toNat := by omega
    simp [Lexer.step, hzero, hhigh, hlow, hnumber]
  · simp_all [Lexer.step]

theorem foldlM_escaped (tokens : List Token) (cs : List Char) (acc : List Nat) :
    (cs.flatMap escapeChar).foldlM Lexer.step ⟨.text acc, tokens⟩ =
      some ⟨.text ((cs.map Char.toNat).reverse ++ acc), tokens⟩ := by
  induction cs generalizing acc with
  | nil => rfl
  | cons c rest ih =>
    rw [List.flatMap_cons, List.foldlM_append, foldlM_escapeChar]
    change (rest.flatMap escapeChar).foldlM Lexer.step _ = _
    rw [ih, List.map_cons, List.reverse_cons, List.append_assoc]
    rfl

theorem isHigh_toNat (c : Char) : Surrogate.isHigh c.toNat = false := by
  have hvalid : c.toNat < 0xd800 ∨ 0xdfff < c.toNat ∧ c.toNat < 0x110000 := c.valid
  simp only [Surrogate.isHigh, Bool.and_eq_false_iff, decide_eq_false_iff_not]
  omega

theorem isLow_toNat (c : Char) : Surrogate.isLow c.toNat = false := by
  have hvalid : c.toNat < 0xd800 ∨ 0xdfff < c.toNat ∧ c.toNat < 0x110000 := c.valid
  simp only [Surrogate.isLow, Bool.and_eq_false_iff, decide_eq_false_iff_not]
  omega

/-- Characters are no halves of pairs. -/
theorem join?_map_toNat (cs : List Char) : Surrogate.join? (cs.map Char.toNat) = some cs := by
  induction cs with
  | nil => rfl
  | cons c rest ih =>
    cases rest with
    | nil => simp [Surrogate.join?, isHigh_toNat, isLow_toNat, Char.ofNat_toNat]
    | cons d rest =>
      rw [List.map_cons, List.map_cons, Surrogate.join?, isHigh_toNat, isLow_toNat c,
        ← List.map_cons, ih, Char.ofNat_toNat]
      rfl

theorem closes_quoted (s : String) : Closes (quoted s) [.str (some s)] := by
  intro before
  have hopen : Lexer.step ⟨.between, before⟩ '"' = some ⟨.text [], before⟩ := rfl
  have htoken : textToken (s.toList.map Char.toNat) = .str (some s) := by
    rw [textToken, join?_map_toNat, Option.map_some, String.ofList_toList]
  rw [quoted, List.foldlM_cons, hopen]
  change (s.toList.flatMap escapeChar ++ ['"']).foldlM Lexer.step _ = _
  rw [List.foldlM_append, foldlM_escaped]
  change some (⟨.between, textToken _ :: before⟩ : Lexer) = _
  rw [List.append_nil, List.reverse_reverse, htoken]
  rfl

/-! ## Texts of documents -/

/-- A layout that adds nothing but blanks. -/
structure Style.Lawful (style : Style) : Prop where
  lineBreak : ∀ depth, ∀ c ∈ style.lineBreak depth, c = ' ' ∨ c = '\n'
  colon : ∃ blanks, style.colon = ':' :: blanks ∧ ∀ c ∈ blanks, c = ' ' ∨ c = '\n'

theorem Style.lawful_compact : Style.Lawful .compact :=
  ⟨fun _ _ h => absurd h List.not_mem_nil, [], rfl, fun _ h => absurd h List.not_mem_nil⟩

theorem Style.lawful_pretty : Style.Lawful .pretty := by
  refine ⟨fun depth c h => ?_, [' '], rfl, fun c h => .inl (List.mem_singleton.1 h)⟩
  rcases List.mem_cons.1 h with rfl | h
  · exact .inr rfl
  · exact .inl (List.eq_of_mem_replicate h)

section

variable {style : Style} (hstyle : style.Lawful)
include hstyle

/-- A delimiter with a break behind it. -/
theorem closes_delimiter {d : Char} {token : Token} (h : Closes [d] [token]) (depth : Nat) :
    Closes (d :: style.lineBreak depth) [token] :=
  h.append (closes_blanks (hstyle.lineBreak depth))

/-- A delimiter with a break before it. -/
theorem closes_end {d : Char} {token : Token} (h : Closes [d] [token]) (hd : isBare d = false)
    (depth : Nat) : Closes (style.lineBreak depth ++ [d]) [token] ∧
      Divides (style.lineBreak depth ++ [d]) := by
  refine ⟨(closes_blanks (hstyle.lineBreak depth)).append h, ?_⟩
  cases hbreak : style.lineBreak depth with
  | nil => exact ⟨d, [], rfl, hd⟩
  | cons c rest =>
    refine ⟨c, rest ++ [d], rfl, ?_⟩
    have hc := hstyle.lineBreak depth c (by rw [hbreak]; exact List.mem_cons_self)
    rcases hc with rfl | rfl
    · rfl
    · rfl

/-- A key with what stands between it and its value. -/
theorem closes_key (key : String) :
    Closes (quoted key ++ style.colon) [.str (some key), .colon] := by
  obtain ⟨blanks, hcolon, hblanks⟩ := hstyle.colon
  rw [hcolon]
  exact (closes_quoted key).append (closes_colon.append (closes_blanks hblanks))

/-- The further items of an array go on behind its first ones. -/
theorem Lexes.items {items : List Json} {depth : Nat}
    (h : ∀ v ∈ items, Lexes (v.chars style depth) v.toTokens) {cs : List Char} {ts : List Token}
    (hcs : Lexes cs ts) :
    Lexes (cs ++ itemChars style depth items) (ts ++ itemTokens items) := by
  induction items generalizing cs ts with
  | nil => simpa [itemChars, itemTokens] using hcs
  | cons v rest ih =>
    obtain ⟨hv, hrest⟩ := List.forall_mem_cons.1 h
    have hcomma := hcs.close (closes_delimiter hstyle closes_comma depth) ⟨',', _, rfl, rfl⟩
    have hnext := ih hrest (hcomma.before hv)
    simpa [itemChars, itemTokens] using hnext

/-- The further members of an object go on behind its first ones. -/
theorem Lexes.members {members : List (String × Json)} {depth : Nat}
    (h : ∀ m ∈ members, Lexes (m.2.chars style depth) m.2.toTokens) {cs : List Char}
    {ts : List Token} (hcs : Lexes cs ts) :
    Lexes (cs ++ memberChars style depth members) (ts ++ memberTokens members) := by
  induction members generalizing cs ts with
  | nil => simpa [memberChars, memberTokens] using hcs
  | cons m rest ih =>
    obtain ⟨key, v⟩ := m
    obtain ⟨hv, hrest⟩ := List.forall_mem_cons.1 h
    have hcomma := hcs.close (closes_delimiter hstyle closes_comma depth) ⟨',', _, rfl, rfl⟩
    have hnext := ih hrest ((hcomma.append (closes_key hstyle key)).before hv)
    simpa [memberChars, memberTokens] using hnext

/-- The text of a document has the tokens of the document. -/
theorem lexes_chars {v : Json} (hv : Exact v) (depth : Nat) :
    Lexes (v.chars style depth) v.toTokens := by
  induction hv generalizing depth with
  | null =>
    change Lexes ['n', 'u', 'l', 'l'] _
    exact lexes_word (List.all_eq_true.1 rfl) rfl (List.cons_ne_nil _ _)
  | bool b =>
    cases b with
    | true =>
      change Lexes ['t', 'r', 'u', 'e'] _
      exact lexes_word (List.all_eq_true.1 rfl) rfl (List.cons_ne_nil _ _)
    | false =>
      change Lexes ['f', 'a', 'l', 's', 'e'] _
      exact lexes_word (List.all_eq_true.1 rfl) rfl (List.cons_ne_nil _ _)
  | int fits => exact lexes_int fits
  | str s => exact (closes_quoted s).lexes
  | @arr items all ih =>
    cases items with
    | nil => exact (closes_openBracket.append closes_closeBracket).lexes
    | cons v rest =>
      obtain ⟨hv, hrest⟩ := List.forall_mem_cons.1 ih
      have hopen := closes_delimiter hstyle closes_openBracket (depth + 1)
      have hitems := Lexes.items hstyle (fun w hw => hrest w hw (depth + 1))
        (hopen.before (hv (depth + 1)))
      obtain ⟨hend, hdivides⟩ := closes_end hstyle closes_closeBracket rfl depth
      have hall := (hitems.close hend hdivides).lexes
      simpa [chars, toTokens] using hall
  | @obj members all ih =>
    cases members with
    | nil => exact (closes_openBrace.append closes_closeBrace).lexes
    | cons m rest =>
      obtain ⟨key, v⟩ := m
      obtain ⟨hv, hrest⟩ := List.forall_mem_cons.1 ih
      have hopen := (closes_delimiter hstyle closes_openBrace (depth + 1)).append
        (closes_key hstyle key)
      have hmembers := Lexes.members hstyle (fun w hw => hrest w hw (depth + 1))
        (hopen.before (hv (depth + 1)))
      obtain ⟨hend, hdivides⟩ := closes_end hstyle closes_closeBrace rfl depth
      have hall := (hmembers.close hend hdivides).lexes
      simpa [chars, toTokens] using hall

end

/-! ## Tokens of any text -/

/-- A token of a text: if it is a scalar, it is no container. -/
def Token.IsFlat : Token → Prop
  | scalar v => v.depth = 0
  | _ => True

theorem isFlat_of_bareToken? {word : List Char} {t : Token} (h : bareToken? word = some t) :
    t.IsFlat := by
  unfold bareToken? at h
  split at h
  · obtain rfl := Option.some.inj h
    rfl
  split at h
  · obtain rfl := Option.some.inj h
    rfl
  split at h
  · obtain rfl := Option.some.inj h
    rfl
  obtain ⟨v, hv, rfl⟩ := Option.map_eq_some_iff.1 h
  obtain ⟨l, -, hl⟩ := Option.bind_eq_some_iff.1 hv
  split at hl
  · obtain rfl := Option.some.inj hl
    rfl
  · obtain rfl := Option.some.inj hl
    change depth (if _ then flawed else real _) = 0
    split
    · rfl
    · rfl

theorem isFlat_stepBetween {tokens : List Token} (h : ∀ t ∈ tokens, t.IsFlat) {c : Char} {l : Lexer}
    (hl : Lexer.stepBetween tokens c = some l) : ∀ t ∈ l.tokens, t.IsFlat := by
  unfold Lexer.stepBetween at hl
  repeat' split at hl
  all_goals cases hl
  all_goals simpa [Token.IsFlat] using h

theorem isFlat_step {l l' : Lexer} (h : ∀ t ∈ l.tokens, t.IsFlat) {c : Char}
    (hl : l.step c = some l') : ∀ t ∈ l'.tokens, t.IsFlat := by
  obtain ⟨mode, tokens⟩ := l
  cases mode with
  | between => exact isFlat_stepBetween h hl
  | text acc =>
    simp only [Lexer.step] at hl
    repeat' split at hl
    all_goals cases hl
    all_goals simpa [textToken, Token.IsFlat] using h
  | escape acc =>
    simp only [Lexer.step] at hl
    split at hl
    · cases hl
      exact h
    · obtain ⟨e, -, rfl⟩ := Option.map_eq_some_iff.1 hl
      exact h
  | unicode acc left code =>
    obtain ⟨digit, -, hl⟩ := Option.bind_eq_some_iff.1 hl
    split at hl
    · cases hl
      exact h
    · cases hl
      exact h
  | bare acc =>
    simp only [Lexer.step] at hl
    split at hl
    · cases hl
      exact h
    · obtain ⟨t, ht, hl⟩ := Option.bind_eq_some_iff.1 hl
      exact isFlat_stepBetween (List.forall_mem_cons.2 ⟨isFlat_of_bareToken? ht, h⟩) hl

/-- What one step keeps, a whole run keeps. -/
theorem foldlM_invariant {σ τ : Type} {f : σ → τ → Option σ} {P : σ → Prop} {Q : τ → Prop}
    (hstep : ∀ s t s', P s → Q t → f s t = some s' → P s') {l : List τ} (hl : ∀ t ∈ l, Q t)
    {s s' : σ} (hs : P s) (hrun : l.foldlM f s = some s') : P s' := by
  induction l generalizing s with
  | nil => exact Option.some.inj hrun ▸ hs
  | cons t rest ih =>
    obtain ⟨ht, hrest⟩ := List.forall_mem_cons.1 hl
    obtain ⟨m, hm, hrun⟩ := Option.bind_eq_some_iff.1 hrun
    exact ih hrest (hstep s t m hs ht hm) hrun

theorem isFlat_of_tokens? {cs : List Char} {tokens : List Token} (h : tokens? cs = some tokens) :
    ∀ t ∈ tokens, t.IsFlat := by
  obtain ⟨l, hl, hfinish⟩ := Option.bind_eq_some_iff.1 h
  have hflat : ∀ t ∈ l.tokens, t.IsFlat :=
    foldlM_invariant (P := fun l : Lexer => ∀ t ∈ l.tokens, t.IsFlat) (Q := fun _ => True)
      (fun _ _ _ hs _ hstep => isFlat_step hs hstep) (fun _ _ => trivial)
      (fun _ hmem => absurd hmem List.not_mem_nil) hl
  obtain ⟨mode, before⟩ := l
  cases mode with
  | between =>
    obtain rfl := Option.some.inj hfinish
    simpa using hflat
  | bare acc =>
    obtain ⟨t, ht, hfinish⟩ := Option.bind_eq_some_iff.1 hfinish
    obtain rfl := Option.some.inj hfinish
    simpa [or_imp, forall_and] using And.intro hflat (isFlat_of_bareToken? ht)
  | _ => cases hfinish

end Json

end Packwright
