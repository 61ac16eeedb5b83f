import Packwright.Batch
import Packwright.Proofs.Format

/-
  Printing to a device that takes everything. What was printed is read back as it was: bytes that
  are UTF-8 are never taken for damaged (`decode_utf8`). `Prints` says what a computation prints
  there, with a rule for each way of putting computations together.
-/

namespace Packwright

/-! ## Reading undamaged text -/

namespace Lossy

theorem step_start (text : List Char) {b : UInt8} (h : b.toNat < 0x80) :
    step ⟨text, none⟩ b = ⟨Char.ofNat b.toNat :: text, none⟩ := by
  simp only [step, start, if_pos h]

theorem step_lead (text : List Char) {b : UInt8} {left low high : Nat} (hb : 0x80 ≤ b.toNat)
    (hlead : lead? b.toNat = some (left, low, high)) :
    step ⟨text, none⟩ b = ⟨text, some ⟨left, low, high, b.toNat % (1 <<< (6 - left))⟩⟩ := by
  simp only [step, start, if_neg (Nat.not_lt.2 hb), hlead]

theorem step_more (text : List Char) {b : UInt8} {left low high code : Nat}
    (h : low ≤ b.toNat ∧ b.toNat ≤ high) :
    step ⟨text, some ⟨left + 2, low, high, code⟩⟩ b =
      ⟨text, some ⟨left + 1, 0x80, 0xbf, code * 64 + b.toNat % 64⟩⟩ := by
  simp only [step, if_pos h]
  rfl

theorem step_last (text : List Char) {b : UInt8} {low high code : Nat}
    (h : low ≤ b.toNat ∧ b.toNat ≤ high) :
    step ⟨text, some ⟨1, low, high, code⟩⟩ b =
      ⟨Char.ofNat (code * 64 + b.toNat % 64) :: text, none⟩ := by
  simp only [step, if_pos h, if_true]

theorem lead?_two {b : Nat} (h : 0xc2 ≤ b ∧ b ≤ 0xdf) : lead? b = some (1, 0x80, 0xbf) := by
  rw [lead?, if_pos h]

/-- The first byte of three bounds the second, so that no shorter form and no surrogate is read. -/
theorem lead?_three {b : Nat} (h : 0xe0 ≤ b ∧ b ≤ 0xef) :
    lead? b = some (2, if b = 0xe0 then 0xa0 else 0x80, if b = 0xed then 0x9f else 0xbf) := by
  unfold lead?
  rw [if_neg (by omega)]
  by_cases h₀ : b = 0xe0
  · rw [if_pos h₀, if_pos h₀, if_neg (by omega)]
  · rw [if_neg h₀, if_neg h₀]
    by_cases h₁ : b = 0xed
    · rw [if_pos h₁, if_pos h₁]
    · rw [if_neg h₁, if_neg h₁, if_pos (by omega)]

/-- The first byte of four bounds the second, so that no shorter form and no number beyond the
last character is read. -/
theorem lead?_four {b : Nat} (h : 0xf0 ≤ b ∧ b ≤ 0xf4) :
    lead? b = some (3, if b = 0xf0 then 0x90 else 0x80, if b = 0xf4 then 0x8f else 0xbf) := by
  unfold lead?
  rw [if_neg (by omega), if_neg (by omega), if_neg (by omega), if_neg (by omega)]
  by_cases h₀ : b = 0xf0
  · rw [if_pos h₀, if_pos h₀, if_neg (by omega)]
  · rw [if_neg h₀, if_neg h₀]
    by_cases h₁ : b = 0xf4
    · rw [if_neg (by omega), if_pos h₁, if_pos h₁]
    · rw [if_pos (by omega), if_neg h₁]

theorem toNat_ofNat_of_lt {n : Nat} (h : n < 256) : (UInt8.ofNat n).toNat = n :=
  Nat.mod_eq_of_lt h

theorem foldl_step_two {v : Nat} (h : 0x7f < v ∧ v ≤ 0x7ff) (text : List Char) :
    [UInt8.ofNat (v / 64 % 32 + 192), UInt8.ofNat (v % 64 + 128)].foldl step ⟨text, none⟩ =
      ⟨Char.ofNat v :: text, none⟩ := by
  have h₁ := toNat_ofNat_of_lt (n := v / 64 % 32 + 192) (by omega)
  have h₂ := toNat_ofNat_of_lt (n := v % 64 + 128) (by omega)
  have hcode : (v / 64 % 32 + 192) % (1 <<< (6 - 1)) * 64 + (v % 64 + 128) % 64 = v := by
    simp only [Nat.reduceSub, Nat.reduceShiftLeft]
    omega
  rw [List.foldl_cons, step_lead text (by omega) (lead?_two (by omega)), List.foldl_cons,
    step_last text (by omega), List.foldl_nil, h₁, h₂, hcode]

theorem foldl_step_three {v : Nat} (h : 0x7ff < v ∧ v ≤ 0xffff)
    (hvalid : v < 0xd800 ∨ 0xdfff < v) (text : List Char) :
    [UInt8.ofNat (v / 4096 % 16 + 224), UInt8.ofNat (v / 64 % 64 + 128),
      UInt8.ofNat (v % 64 + 128)].foldl step ⟨text, none⟩ = ⟨Char.ofNat v :: text, none⟩ := by
  have h₁ := toNat_ofNat_of_lt (n := v / 4096 % 16 + 224) (by omega)
  have h₂ := toNat_ofNat_of_lt (n := v / 64 % 64 + 128) (by omega)
  have h₃ := toNat_ofNat_of_lt (n := v % 64 + 128) (by omega)
  have hcode : ((v / 4096 % 16 + 224) % (1 <<< (6 - 2)) * 64 + (v / 64 % 64 + 128) % 64) * 64 +
      (v % 64 + 128) % 64 = v := by
    simp only [Nat.reduceSub, Nat.reduceShiftLeft]
    omega
  rw [List.foldl_cons, step_lead text (by omega) (lead?_three (by omega)), List.foldl_cons,
    step_more text (by rw [h₁, h₂]; constructor <;> split <;> omega), List.foldl_cons,
    step_last text (by omega), List.foldl_nil, h₁, h₂, h₃, hcode]

theorem foldl_step_four {v : Nat} (h : 0xffff < v ∧ v < 0x110000) (text : List Char) :
    [UInt8.ofNat (v / 262144 % 8 + 240), UInt8.ofNat (v / 4096 % 64 + 128),
      UInt8.ofNat (v / 64 % 64 + 128), UInt8.ofNat (v % 64 + 128)].foldl step ⟨text, none⟩ =
      ⟨Char.ofNat v :: text, none⟩ := by
  have h₁ := toNat_ofNat_of_lt (n := v / 262144 % 8 + 240) (by omega)
  have h₂ := toNat_ofNat_of_lt (n := v / 4096 % 64 + 128) (by omega)
  have h₃ := toNat_ofNat_of_lt (n := v / 64 % 64 + 128) (by omega)
  have h₄ := toNat_ofNat_of_lt (n := v % 64 + 128) (by omega)
  have hcode : (((v / 262144 % 8 + 240) % (1 <<< (6 - 3)) * 64 + (v / 4096 % 64 + 128) % 64) * 64 +
      (v / 64 % 64 + 128) % 64) * 64 + (v % 64 + 128) % 64 = v := by
    simp only [Nat.reduceSub, Nat.reduceShiftLeft]
    omega
  rw [List.foldl_cons, step_lead text (by omega) (lead?_four (by omega)), List.foldl_cons,
    step_more text (by rw [h₁, h₂]; constructor <;> split <;> omega), List.foldl_cons,
    step_more text (by omega), List.foldl_cons, step_last text (by omega), List.foldl_nil, h₁, h₂,
    h₃, h₄, hcode]

/-- The bytes of a character are read as that character. -/
theorem foldl_step_char (c : Char) (text : List Char) :
    (String.utf8EncodeChar c).foldl step ⟨text, none⟩ = ⟨c :: text, none⟩ := by
  have hvalid : c.val.toNat < 0xd800 ∨ 0xdfff < c.val.toNat ∧ c.val.toNat < 0x110000 := c.valid
  have hchar : Char.ofNat c.val.toNat = c := Char.ofNat_toNat c
  unfold String.utf8EncodeChar
  dsimp only
  split
  · have hbyte := toNat_ofNat_of_lt (n := c.val.toNat) (by omega)
    rw [List.foldl_cons, step_start text (by omega), List.foldl_nil, hbyte, hchar]
  · split
    · rw [foldl_step_two (by omega), hchar]
    · split
      · rw [foldl_step_three (by omega) (by omega), hchar]
      · rw [foldl_step_four (by omega), hchar]

theorem foldl_step_chars (cs text : List Char) :
    (cs.flatMap String.utf8EncodeChar).foldl step ⟨text, none⟩ = ⟨cs.reverse ++ text, none⟩ := by
  induction cs generalizing text with
  | nil => rfl
  | cons c rest ih =>
    rw [List.flatMap_cons, List.foldl_append, foldl_step_char, ih, List.reverse_cons,
      List.append_assoc]
    rfl

theorem utf8_eq_flatMap (s : String) : utf8 s = s.toList.flatMap String.utf8EncodeChar := by
  have hs : s.toByteArray = s.toList.utf8Encode := by
    rw [← String.toByteArray_ofList, String.ofList_toList]
  rw [utf8, String.toUTF8, hs, List.utf8Encode]
  simp

/-- A text is read back from its bytes. -/
theorem decode_utf8 (s : String) : decode (utf8 s) = s := by
  rw [decode, utf8_eq_flatMap, foldl_step_chars]
  simp

theorem undamaged?_eq_some_iff {data : Bytes} {s : String} :
    undamaged? data = some s ↔ data = utf8 s := by
  simp only [undamaged?, Option.ite_none_right_eq_some, Option.some.injEq]
  constructor
  · rintro ⟨hdata, rfl⟩
    exact hdata.symm
  · rintro rfl
    rw [decode_utf8]
    exact ⟨rfl, rfl⟩

end Lossy

theorem utf8_inj {a b : String} (h : utf8 a = utf8 b) : a = b := by
  rw [← Lossy.decode_utf8 a, h, Lossy.decode_utf8]

theorem utf8_append (a b : String) : utf8 (a ++ b) = utf8 a ++ utf8 b := by
  simp [utf8]

/-! ## Printing -/

/-- A printer that has not failed, on a device that takes everything. -/
structure Printer.Open (p : Printer) : Prop where
  fine : p.failure = none
  onWrite : ∀ n, p.sink.onWrite n = .accept none
  onFlush : ∀ n, p.sink.onFlush n = none

theorem Printer.open_memory : Printer.Open { sink := .memory } := ⟨rfl, fun _ => rfl, fun _ => rfl⟩

/-- On a device that takes everything, a computation succeeds with a result and prints a text. -/
def Prints {α : Type} (x : Print α) (a : α) (text : String) : Prop :=
  ∀ p : Printer, p.Open → ∃ p', x p = .ok a p' ∧ p'.Open ∧
    p'.sink.data.toList = p.sink.data.toList ++ utf8 text

namespace Prints

variable {α β : Type}

theorem pure (a : α) : Prints (pure a) a "" :=
  fun p hp => ⟨p, rfl, hp, (List.append_nil _).symm⟩

theorem bind {x : Print α} {f : α → Print β} {a : α} {b : β} {t u : String} (hx : Prints x a t)
    (hf : Prints (f a) b u) : Prints (x >>= f) b (t ++ u) := by
  intro p hp
  obtain ⟨q, hxp, hq, hdata⟩ := hx p hp
  obtain ⟨r, hfq, hr, hdata'⟩ := hf q hq
  refine ⟨r, ?_, hr, by rw [hdata', hdata, utf8_append, List.append_assoc]⟩
  change EStateM.bind x f p = .ok b r
  rw [EStateM.bind, hxp]
  exact hfq

/-- A step that prints nothing. -/
theorem after {x : Print α} {f : α → Print β} {a : α} {b : β} {t : String} (hx : Prints x a "")
    (hf : Prints (f a) b t) : Prints (x >>= f) b t := by
  have h := hx.bind hf
  rwa [String.empty_append] at h

theorem before {x : Print α} {f : α → Print β} {a : α} {b : β} {t : String} (hx : Prints x a t)
    (hf : Prints (f a) b "") : Prints (x >>= f) b t := by
  have h := hx.bind hf
  rwa [String.append_empty] at h

theorem print (text : String) : Prints (Batch.print text) () text := by
  intro p hp
  have hwrite : ∃ sink, p.sink.writeAll (utf8 text) = (.ok (), sink) ∧
      sink.data.toList = p.sink.data.toList ++ utf8 text ∧ sink.onWrite = p.sink.onWrite ∧
      sink.onFlush = p.sink.onFlush := by
    unfold Sink.writeAll
    cases utf8 text with
    | nil => exact ⟨p.sink, rfl, (List.append_nil _).symm, rfl, rfl⟩
    | cons b rest =>
      simp only [hp.onWrite]
      exact ⟨_, rfl, by simp, rfl, rfl⟩
  obtain ⟨sink, hsink, hdata, honWrite, honFlush⟩ := hwrite
  refine ⟨{ p with sink, written := p.written + text.utf8ByteSize }, ?_,
    ⟨hp.fine, fun n => by rw [honWrite]; exact hp.onWrite n, fun n => by
      rw [honFlush]; exact hp.onFlush n⟩, hdata⟩
  simp only [Batch.print, Print.call, Printer.print, hp.fine, hsink]

theorem ok : Prints (Print.call Printer.ok) () "" := by
  intro p hp
  refine ⟨p, ?_, hp, (List.append_nil _).symm⟩
  simp only [Print.call, Printer.ok, hp.fine]

theorem flush : Prints (Print.call Printer.flush) () "" := by
  intro p hp
  refine ⟨{ p with sink := { p.sink with flushes := p.sink.flushes + 1 } }, ?_,
    ⟨hp.fine, hp.onWrite, hp.onFlush⟩, (List.append_nil _).symm⟩
  simp only [Print.call, Printer.flush, hp.fine, Sink.flush, hp.onFlush]

end Prints

end Packwright
