import Packwright.Proofs.Overflow

/-
  Printing to a device that may fail. A device answers each call as it likes: it takes some of the
  bytes, or none, or fails, and a flush may fail too. `Sink.failures` lists the failures among the
  calls that were made between two states of a device; a write that was interrupted is none of them,
  since it is made again. Whatever a printer is asked for, that list stays empty or ends with the
  first failure, and what the device holds is what was printed up to there and a prefix of the text
  that failed (`runAll_cases`).

  A computation that prints is `Steady`: there are texts that it prints and one result that it comes
  to on every device, unless the device fails on the way. So a batch, which is such a computation
  and a flush, leaves a prefix of its file on every device (`generate_leaves_beginning`).
-/

namespace Packwright

/-- The failure that an answer to a write is. An interruption is none. A device that takes nothing
fails, since no write is made for nothing. -/
def WriteReply.failure? : WriteReply → Option SinkError
  | fail e => if e.kind = .interrupted then none else some e
  | accept (some 0) => some Sink.wroteNothing
  | accept _ => none

theorem WriteReply.failure?_of_isInterruption {r : WriteReply} (h : r.isInterruption = true) :
    r.failure? = none := by
  cases r with
  | accept limit => cases h
  | fail e => exact if_pos (of_decide_eq_true h)

namespace Sink

/-- A device after calls that were made on another. It answers alike and counts on. -/
structure Follows (s s' : Sink) : Prop where
  onWrite : s'.onWrite = s.onWrite
  onFlush : s'.onFlush = s.onFlush
  calls : s.calls ≤ s'.calls
  flushes : s.flushes ≤ s'.flushes

theorem Follows.refl (s : Sink) : Follows s s := ⟨rfl, rfl, Nat.le_refl _, Nat.le_refl _⟩

theorem Follows.trans {s m e : Sink} (h : Follows s m) (h' : Follows m e) : Follows s e where
  onWrite := h'.onWrite.trans h.onWrite
  onFlush := h'.onFlush.trans h.onFlush
  calls := Nat.le_trans h.calls h'.calls
  flushes := Nat.le_trans h.flushes h'.flushes

/-- The failures among the calls made between two states of a device. -/
def failures (s s' : Sink) : List SinkError :=
  (List.range' s.calls (s'.calls - s.calls)).filterMap (fun n => (s.onWrite n).failure?) ++
    (List.range' s.flushes (s'.flushes - s.flushes)).filterMap s.onFlush

@[simp] theorem failures_self (s : Sink) : s.failures s = [] := by
  simp [failures]

/-- Calls that did not fail add nothing to the failures after them. -/
theorem failures_of_fine {s m e : Sink} (h : Follows s m) (h' : Follows m e)
    (hfine : s.failures m = []) : s.failures e = m.failures e := by
  obtain ⟨hwrites, hflushes⟩ := List.append_eq_nil_iff.1 hfine
  have hcalls : e.calls - s.calls = (m.calls - s.calls) + (e.calls - m.calls) := by
    have := h.calls
    have := h'.calls
    omega
  have hflushed : e.flushes - s.flushes = (m.flushes - s.flushes) + (e.flushes - m.flushes) := by
    have := h.flushes
    have := h'.flushes
    omega
  have hstart : s.calls + (m.calls - s.calls) = m.calls := Nat.add_sub_cancel' h.calls
  have hstart' : s.flushes + (m.flushes - s.flushes) = m.flushes := Nat.add_sub_cancel' h.flushes
  unfold failures
  rw [hcalls, hflushed, ← List.range'_append_1, ← List.range'_append_1, List.filterMap_append,
    List.filterMap_append, hwrites, hflushes, hstart, hstart', h.onWrite, h.onFlush]
  rfl

/-- Whether a device has a failure among its answers. -/
def Fails (s : Sink) (e : SinkError) : Prop :=
  (∃ n, (s.onWrite n).failure? = some e) ∨ ∃ n, s.onFlush n = some e

theorem fails_of_mem_failures {s s' : Sink} {e : SinkError} (h : e ∈ s.failures s') :
    s.Fails e := by
  rcases List.mem_append.1 h with h | h
  · obtain ⟨n, -, hn⟩ := List.mem_filterMap.1 h
    exact .inl ⟨n, hn⟩
  · obtain ⟨n, -, hn⟩ := List.mem_filterMap.1 h
    exact .inr ⟨n, hn⟩

theorem Follows.fails {s s' : Sink} {e : SinkError} (h : Follows s s') (he : s'.Fails e) :
    s.Fails e := by
  rwa [Fails, h.onWrite, h.onFlush] at he

theorem not_fails_memory (e : SinkError) : ¬ memory.Fails e := by
  rintro (⟨n, hn⟩ | ⟨n, hn⟩)
  · cases hn
  · cases hn

/-- Between two states of a device it took some bytes, was flushed some times and had some
failures. -/
structure Took (s s' : Sink) (bytes : Bytes) (flushes : Nat) (had : List SinkError) : Prop where
  follows : s.Follows s'
  data : s'.data.toList = s.data.toList ++ bytes
  calls : bytes ≠ [] → s.calls < s'.calls
  flushes : s'.flushes = s.flushes + flushes
  failures : s.failures s' = had

theorem Took.refl (s : Sink) : Took s s [] 0 [] :=
  ⟨.refl s, (List.append_nil _).symm, fun h => absurd rfl h, rfl, s.failures_self⟩

theorem Took.trans {s m e : Sink} {a b : Bytes} {j k : Nat} {had : List SinkError}
    (h : Took s m a j []) (h' : Took m e b k had) : Took s e (a ++ b) (j + k) had where
  follows := h.follows.trans h'.follows
  data := by rw [h'.data, h.data, List.append_assoc]
  calls := by
    intro hab
    by_cases ha : a = []
    · subst ha
      exact Nat.lt_of_le_of_lt h.follows.calls (h'.calls hab)
    · exact Nat.lt_of_lt_of_le (h.calls ha) h'.follows.calls
  flushes := by rw [h'.flushes, h.flushes, Nat.add_assoc]
  failures := by rw [failures_of_fine h.follows h'.follows h.failures, h'.failures]

theorem Took.fails {s s' : Sink} {bytes : Bytes} {flushes : Nat} {e : SinkError}
    (h : Took s s' bytes flushes [e]) : s.Fails e := by
  have hmem : e ∈ s.failures s' := by rw [h.failures]; exact List.mem_cons_self
  exact fails_of_mem_failures hmem

/-- A single write. -/
theorem took_write {s : Sink} {data : Array UInt8} {bytes : Bytes}
    (hdata : data.toList = s.data.toList ++ bytes) :
    Took s { s with calls := s.calls + 1, data } bytes 0
      (s.onWrite s.calls).failure?.toList where
  follows := ⟨rfl, rfl, Nat.le_succ _, Nat.le_refl _⟩
  data := hdata
  calls := fun _ => Nat.lt_succ_self _
  flushes := rfl
  failures := by
    have hone : s.calls + 1 - s.calls = 1 := by omega
    unfold failures
    dsimp only
    rw [hone, Nat.sub_self]
    cases h : (s.onWrite s.calls).failure? with
    | none => simp [List.range', h]
    | some e => simp [List.range', h]

theorem writeAll_accept {s : Sink} {n : Nat} (h : s.onWrite s.calls = .accept (some (n + 1)))
    (b : UInt8) (rest : Bytes) : s.writeAll (b :: rest) =
      writeAll { s with calls := s.calls + 1, data := s.data ++ (b :: rest.take n) }
        (rest.drop n) := by
  rw [writeAll, h]
  rfl

/-- A flush. -/
theorem took_flush (s : Sink) :
    Took s { s with flushes := s.flushes + 1 } [] 1 (s.onFlush s.flushes).toList where
  follows := ⟨rfl, rfl, Nat.le_refl _, Nat.le_succ _⟩
  data := (List.append_nil _).symm
  calls := fun h => absurd rfl h
  flushes := rfl
  failures := by
    have hone : s.flushes + 1 - s.flushes = 1 := by omega
    unfold failures
    dsimp only
    rw [hone, Nat.sub_self]
    cases h : s.onFlush s.flushes with
    | none => simp [List.range', h]
    | some e => simp [List.range', h]

/-- How writing some bytes ends: the device took all of them and no write failed, or it took some
and the last write failed and no other. -/
inductive Wrote (s : Sink) (bytes : Bytes) : Except SinkError Unit × Sink → Prop where
  | all {s' : Sink} (htook : Took s s' bytes 0 []) : Wrote s bytes (.ok (), s')
  | part {s' : Sink} {e : SinkError} {taken : Bytes} (htook : Took s s' taken 0 [e])
      (hbegins : taken <+: bytes) : Wrote s bytes (.error e, s')

/-- A write that did not fail comes before the others. -/
theorem Wrote.after {s m : Sink} {a rest : Bytes} {r : Except SinkError Unit × Sink}
    (h : Took s m a 0 []) (hrest : Wrote m rest r) : Wrote s (a ++ rest) r := by
  cases hrest with
  | all htook => exact .all (h.trans htook)
  | part htook hbegins => exact .part (h.trans htook) ((List.prefix_append_right_inj a).2 hbegins)

theorem wrote_writeAll (s : Sink) (bytes : Bytes) : Wrote s bytes (s.writeAll bytes) := by
  fun_induction writeAll s bytes with
  | case1 s => exact .all (.refl s)
  | case2 s b rest hinterrupted ih =>
    -- the same bytes once more
    have hagain := took_write (s := s) (List.append_nil _).symm
    rw [WriteReply.failure?_of_isInterruption hinterrupted] at hagain
    exact ih.after hagain
  | case3 s b rest hnot e h =>
    have hfailed := took_write (s := s) (List.append_nil _).symm
    rw [h] at hnot hfailed
    rw [WriteReply.failure?, if_neg fun hkind => hnot (decide_eq_true hkind)] at hfailed
    exact .part hfailed List.nil_prefix
  | case4 s b rest _ h =>
    have hdata : (s.data ++ (b :: rest)).toList = s.data.toList ++ b :: rest := by simp
    have htook := took_write hdata
    rw [h] at htook
    exact .all htook
  | case5 s b rest _ h =>
    have hfailed := took_write (s := s) (List.append_nil _).symm
    rw [h] at hfailed
    exact .part hfailed List.nil_prefix
  | case6 s b rest _ n h ih =>
    have hdata : (s.data ++ (b :: rest.take n)).toList = s.data.toList ++ b :: rest.take n := by
      simp
    have htook := took_write hdata
    rw [h] at htook
    have hall := ih.after htook
    rwa [List.cons_append, List.take_append_drop] at hall

end Sink

namespace Printer

/-- Between two states of a printer its device took some bytes, was flushed some times and had some
failures, the first of which the printer keeps. -/
structure Took (p p' : Printer) (bytes : Bytes) (flushes : Nat) (had : List SinkError) : Prop
    extends p.sink.Took p'.sink bytes flushes had where
  failure : p'.failure = had.head?

theorem Took.trans {p m e : Printer} {a b : Bytes} {j k : Nat} {had : List SinkError}
    (h : Took p m a j []) (h' : Took m e b k had) : Took p e (a ++ b) (j + k) had :=
  ⟨h.toTook.trans h'.toTook, h'.failure⟩

/-- A call on a printer. -/
inductive Call where
  | print (text : String)
  | flush
  | ok
deriving DecidableEq

namespace Call

/-- What a call does. -/
def run : Call → Printer → Outcome
  | print text, p => p.print text
  | flush, p => p.flush
  | ok, p => p.ok

/-- What a call is to print. -/
def text : Call → String
  | print text => text
  | flush | ok => ""

/-- A printer that failed reports it again and is left alone, and with it its device. -/
theorem run_latched {p : Printer} {e : SinkError} (h : p.failure = some e) (c : Call) :
    c.run p = (.error e, p) := by
  cases c with
  | print text => simp only [run, Printer.print, h]
  | flush => simp only [run, Printer.flush, h]
  | ok => simp only [run, Printer.ok, h]

/-- A printer that has not failed does what it is asked for, or keeps the failure of its device. In
both cases a flush reaches the device. -/
theorem run_cases {p : Printer} (h : p.failure = none) (c : Call) :
    (∃ p', c.run p = (.ok (), p') ∧ Took p p' (utf8 c.text) ([c].count .flush) [] ∧
      p'.written = p.written + c.text.utf8ByteSize) ∨
    ∃ p' e taken, c.run p = (.error e, p') ∧ Took p p' taken ([c].count .flush) [e] ∧
      taken <+: utf8 c.text ∧ p'.written = p.written := by
  cases c with
  | print text =>
    obtain ⟨r, hr⟩ : ∃ r, p.sink.writeAll (utf8 text) = r := ⟨_, rfl⟩
    have hwrote := p.sink.wrote_writeAll (utf8 text)
    rw [hr] at hwrote
    cases hwrote with
    | @all sink htook =>
      refine .inl ⟨{ p with sink, written := p.written + text.utf8ByteSize }, ?_, ⟨htook, h⟩, rfl⟩
      simp only [run, Printer.print, h, hr]
    | @part sink e taken htook hbegins =>
      refine .inr ⟨{ p with sink, failure := some e }, e, taken, ?_, ⟨htook, rfl⟩, hbegins, rfl⟩
      simp only [run, Printer.print, h, hr]
  | flush =>
    have htook := p.sink.took_flush
    cases hflush : p.sink.onFlush p.sink.flushes with
    | none =>
      rw [hflush] at htook
      refine .inl ⟨{ p with sink := { p.sink with flushes := p.sink.flushes + 1 } }, ?_,
        ⟨htook, h⟩, rfl⟩
      simp only [run, Printer.flush, h, Sink.flush, hflush]
    | some e =>
      rw [hflush] at htook
      refine .inr ⟨{ p with
        sink := { p.sink with flushes := p.sink.flushes + 1 }, failure := some e }, e, [], ?_,
        ⟨htook, rfl⟩, List.nil_prefix, rfl⟩
      simp only [run, Printer.flush, h, Sink.flush, hflush]
  | ok =>
    refine .inl ⟨p, ?_, ⟨.refl _, h⟩, rfl⟩
    simp only [run, Printer.ok, h]

end Call

/-- One call after another: the replies, and the printer in the end. -/
def runAll : List Call → Printer → List (Except SinkError Unit) × Printer
  | [], p => ([], p)
  | c :: rest, p =>
    let (reply, p) := c.run p
    let (replies, p) := runAll rest p
    (reply :: replies, p)

/-- What calls are to print. -/
def callsText (calls : List Call) : String := String.join (calls.map Call.text)

theorem callsText_cons (c : Call) (calls : List Call) :
    callsText (c :: calls) = c.text ++ callsText calls := by
  rw [callsText, List.map_cons, String.join_cons, callsText]

theorem callsText_append (a b : List Call) : callsText (a ++ b) = callsText a ++ callsText b := by
  rw [callsText, List.map_append, String.join_append, callsText, callsText]

/-- After the first failure every call reports it again, and nothing else happens. -/
theorem runAll_latched {p : Printer} {e : SinkError} (h : p.failure = some e)
    (calls : List Call) : runAll calls p = (calls.map fun _ => .error e, p) := by
  induction calls with
  | nil => rfl
  | cons c rest ih => simp only [runAll, Call.run_latched h, ih, List.map_cons]

theorem runAll_append (a b : List Call) (p : Printer) :
    (runAll (a ++ b) p).2 = (runAll b (runAll a p).2).2 := by
  induction a generalizing p with
  | nil => rfl
  | cons c rest ih => exact ih (c.run p).2

theorem count_flush_cons (c : Call) (calls : List Call) :
    (c :: calls).count .flush = [c].count .flush + calls.count .flush := by
  rw [← List.singleton_append, List.count_append]

/-- Calls on a printer that has not failed. Either all of them succeed, or one of them is the first
to fail; it may have printed a part of its text, and those behind it report its failure. -/
theorem runAll_cases {p : Printer} (h : p.failure = none) (calls : List Call) :
    (∃ p', runAll calls p = (calls.map fun _ => .ok (), p') ∧
      Took p p' (utf8 (callsText calls)) (calls.count .flush) [] ∧
      p'.written = p.written + (callsText calls).utf8ByteSize) ∨
    ∃ before c after p' e taken, calls = before ++ c :: after ∧
      runAll calls p =
        ((before.map fun _ => .ok ()) ++ ((c :: after).map fun _ => .error e), p') ∧
      (runAll (before ++ [c]) p).2 = p' ∧
      Took p p' (utf8 (callsText before) ++ taken) ((before ++ [c]).count .flush) [e] ∧
      taken <+: utf8 c.text ∧ p'.written = p.written + (callsText before).utf8ByteSize := by
  induction calls generalizing p with
  | nil => exact .inl ⟨p, rfl, ⟨.refl _, h⟩, rfl⟩
  | cons c rest ih =>
    rcases c.run_cases h with ⟨q, hrun, htook, hwritten⟩ |
      ⟨q, e, taken, hrun, htook, hbegins, hwritten⟩
    · rcases ih (p := q) htook.failure with ⟨r, hrest, htook', hwritten'⟩ |
        ⟨before, c', after, r, e, taken, rfl, hrest, hstop, htook', hbegins, hwritten'⟩
      · refine .inl ⟨r, ?_, ?_, ?_⟩
        · simp only [runAll, hrun, hrest, List.map_cons]
        · rw [callsText_cons, utf8_append, count_flush_cons]
          exact htook.trans htook'
        · rw [hwritten', hwritten, callsText_cons, String.utf8ByteSize_append, Nat.add_assoc]
      · refine .inr ⟨c :: before, c', after, r, e, taken, rfl, ?_, ?_, ?_, hbegins, ?_⟩
        · simp only [runAll, hrun, hrest, List.map_cons, List.cons_append]
        · simpa only [List.cons_append, runAll, hrun] using hstop
        · rw [callsText_cons, utf8_append, List.append_assoc, List.cons_append, count_flush_cons]
          exact htook.trans htook'
        · rw [hwritten', hwritten, callsText_cons, String.utf8ByteSize_append, Nat.add_assoc]
    · refine .inr ⟨[], c, rest, q, e, taken, rfl, ?_, ?_, htook, hbegins, hwritten⟩
      · have hrest := runAll_latched (e := e) htook.failure rest
        simp only [runAll, hrun, hrest, List.map_cons, List.map_nil, List.nil_append]
      · simp only [List.nil_append, runAll, hrun]

/-- Calls on a device that has no failure among its answers. -/
theorem runAll_fine {s : Sink} (hs : ∀ e, ¬ s.Fails e) (calls : List Call) :
    Took { sink := s } (runAll calls { sink := s }).2 (utf8 (callsText calls))
      (calls.count .flush) [] := by
  rcases runAll_cases (p := { sink := s }) rfl calls with ⟨p, hrun, htook, -⟩ |
    ⟨_, _, _, p, e, taken, -, hrun, -, htook, -⟩
  · rw [hrun]
    exact htook
  · exact absurd htook.fails (hs e)

end Printer

/-! ## Computations that print -/

open Printer (Call Took runAll callsText)

/-- What a computation with a result comes to when it ends with a printer: a printer that failed
stops it. -/
def Print.conclude {α : Type} (r : Except Fault α) (p : Printer) :
    EStateM.Result Fault Printer α :=
  match p.failure with
  | some e => .error (.error (.sink e)) p
  | none =>
    match r with
    | .ok a => .ok a p
    | .error fault => .error fault p

namespace Print

variable {α β : Type}

theorem conclude_failed {r : Except Fault α} {p : Printer} {e : SinkError}
    (h : p.failure = some e) : conclude r p = .error (.error (.sink e)) p := by
  simp only [conclude, h]

theorem conclude_ok {a : α} {p : Printer} (h : p.failure = none) :
    conclude (.ok a) p = .ok a p := by
  simp only [conclude, h]

theorem conclude_error {fault : Fault} {p : Printer} (h : p.failure = none) :
    (conclude (.error fault) p : EStateM.Result Fault Printer α) = .error fault p := by
  simp only [conclude, h]

/-- On every device a computation makes the same calls and comes to the same result, as long as the
device does not fail. -/
def Makes (x : Print α) (calls : List Call) (r : Except Fault α) : Prop :=
  ∀ p : Printer, p.failure = none → x p = conclude r (runAll calls p).2

namespace Makes

theorem pure (a : α) : Makes (pure a) [] (.ok a) :=
  fun _ hp => (conclude_ok hp).symm

theorem throw (fault : Fault) : Makes (throw fault : Print α) [] (.error fault) :=
  fun _ hp => (conclude_error hp).symm

theorem call (c : Call) : Makes (Print.call c.run) [c] (.ok ()) := by
  intro p hp
  rcases c.run_cases hp with ⟨q, hrun, htook, -⟩ | ⟨q, e, taken, hrun, htook, -⟩
  · simp only [runAll, hrun, Print.call]
    exact (conclude_ok htook.failure).symm
  · simp only [runAll, hrun, Print.call]
    exact (conclude_failed htook.failure).symm

theorem bind {x : Print α} {f : α → Print β} {calls calls' : List Call} {a : α}
    {r : Except Fault β} (hx : Makes x calls (.ok a)) (hf : Makes (f a) calls' r) :
    Makes (x >>= f) (calls ++ calls') r := by
  intro p hp
  change EStateM.bind x f p = _
  rw [EStateM.bind, hx p hp, Printer.runAll_append]
  cases hq : (runAll calls p).2.failure with
  | none =>
    rw [conclude_ok hq]
    exact hf _ hq
  | some e =>
    -- the second computation is not reached, and its calls would change nothing
    rw [conclude_failed hq, Printer.runAll_latched hq, conclude_failed hq]

theorem stop {x : Print α} (f : α → Print β) {calls : List Call} {fault : Fault}
    (hx : Makes x calls (.error fault)) : Makes (x >>= f) calls (.error fault) := by
  intro p hp
  change EStateM.bind x f p = _
  rw [EStateM.bind, hx p hp]
  cases hq : (runAll calls p).2.failure with
  | none => rw [conclude_error hq, conclude_error hq]
  | some e => rw [conclude_failed hq, conclude_failed hq]

end Makes

/-- A computation that prints the same texts on every device, and does not flush. -/
def Steady (x : Print α) : Prop := ∃ (texts : List String) (r : _), Makes x (texts.map .print) r

/-- The call behind all texts of a computation that flushes the device once it has its result. -/
def closing : Except Fault α → List Call
  | .ok _ => [.flush]
  | .error _ => []

/-- A computation that prints the same texts on every device, and then flushes it. -/
def Closes (x : Print α) : Prop :=
  ∃ (texts : List String) (r : _), Makes x (texts.map .print ++ closing r) r

namespace Steady

theorem pure (a : α) : Steady (pure a) := ⟨[], .ok a, .pure a⟩

theorem throw (fault : Fault) : Steady (throw fault : Print α) := ⟨[], .error fault, .throw fault⟩

theorem print (text : String) : Steady (Batch.print text) := ⟨[text], .ok (), .call (.print text)⟩

theorem ok : Steady (Print.call Printer.ok) := by
  refine ⟨[], .ok (), fun p hp => ?_⟩
  simp only [Print.call, Printer.ok, hp]
  exact (conclude_ok hp).symm

theorem bind {x : Print α} {f : α → Print β} (hx : Steady x) (hf : ∀ a, Steady (f a)) :
    Steady (x >>= f) := by
  obtain ⟨texts, r, hx⟩ := hx
  cases r with
  | error fault => exact ⟨texts, .error fault, hx.stop f⟩
  | ok a =>
    obtain ⟨texts', r, hf⟩ := hf a
    refine ⟨texts ++ texts', r, ?_⟩
    rw [List.map_append]
    exact hx.bind hf

theorem foldlM {γ : Type} {f : β → γ → Print β} (hf : ∀ b c, Steady (f b c)) (l : List γ) (b : β) :
    Steady (l.foldlM f b) := by
  induction l generalizing b with
  | nil => exact pure b
  | cons c rest ih =>
    rw [List.foldlM_cons]
    exact (hf b c).bind ih

theorem closes {x : Print α} {f : α → Print β} (hx : Steady x) (hf : ∀ a, Closes (f a)) :
    Closes (x >>= f) := by
  obtain ⟨texts, r, hx⟩ := hx
  cases r with
  | error fault =>
    refine ⟨texts, .error fault, ?_⟩
    rw [closing, List.append_nil]
    exact hx.stop f
  | ok a =>
    obtain ⟨texts', r, hf⟩ := hf a
    refine ⟨texts ++ texts', r, ?_⟩
    rw [List.map_append, List.append_assoc]
    exact hx.bind hf

end Steady

theorem closes_flush (a : α) : Closes (do Print.call Printer.flush; return a) :=
  ⟨[], .ok a, (Makes.call .flush).bind (.pure a)⟩

theorem callsText_texts (texts : List String) :
    callsText (texts.map .print) = String.join texts := by
  rw [callsText, List.map_map]
  exact congrArg String.join (List.map_id texts)

theorem callsText_closing (texts : List String) (r : Except Fault α) :
    callsText (texts.map .print ++ closing r) = String.join texts := by
  have hclosing : callsText (closing r) = "" := by cases r <;> rfl
  rw [Printer.callsText_append, callsText_texts, hclosing, String.append_empty]

theorem count_flush_texts (texts : List String) : (texts.map Call.print).count .flush = 0 :=
  List.count_eq_zero.2 (by simp)

/-- On a device that has no failure among its answers a computation comes to its result. -/
theorem Makes.fine {s : Sink} (hs : ∀ e, ¬ s.Fails e) {x : Print α} {texts : List String}
    {r : Except Fault α} (h : Makes x (texts.map .print ++ closing r) r) :
    ∃ p, x { sink := s } = conclude r p ∧
      Took { sink := s } p (utf8 (String.join texts)) ((closing r).count .flush) [] := by
  have htook := Printer.runAll_fine hs (texts.map .print ++ closing r)
  rw [callsText_closing, List.count_append, count_flush_texts, Nat.zero_add] at htook
  exact ⟨_, h _ rfl, htook⟩

end Print

open Print (Steady Closes closing)

namespace Batch

theorem steady_blocks (blocks : List String) : Steady (printBlocks blocks) := by
  induction blocks with
  | nil => exact .pure ()
  | cons block rest ih =>
    have hblock : Steady (do print "\n"; print block) :=
      (Steady.print "\n").bind fun _ => .print block
    exact hblock.bind fun _ => ih

theorem steady_identity (progress : Progress) (entry : String × Shape) :
    Steady (identity progress entry) := by
  refine Steady.ok.bind fun _ => ?_
  cases CodeGenerator.renderAll entry.1 entry.2 progress.generators with
  | mk outcome generators =>
  dsimp only
  split
  · exact .pure _
  · exact (steady_blocks _).bind fun _ => .pure _
  · exact .pure _
  · exact .throw _

theorem closes_generate (t : Table) (c : Config) (methods : List Method) :
    Closes (generate t c methods) := by
  have hrest : Closes (do
      let done ← t.entries.foldlM identity { generators := methods.map (Method.generator c) }
      Print.call Printer.flush
      return done.report) :=
    (Steady.foldlM steady_identity t.entries _).closes fun done => Print.closes_flush done.report
  unfold generate
  refine (Steady.print _).closes fun _ => (Steady.print _).closes fun _ => ?_
  split
  · exact (Steady.print _).closes fun _ => (Steady.print _).closes fun _ => hrest
  · exact hrest

/-- A batch prints the same texts on every device, and they are its file. -/
theorem exists_texts (t : Table) (c : Config) (methods : List Method) :
    ∃ (texts : List String) (r : _),
    generateFile t c methods = r.map (fun report => (String.join texts, report)) ∧
      Print.Makes (generate t c methods) (texts.map .print ++ closing r) r := by
  obtain ⟨texts, r, hmakes⟩ := closes_generate t c methods
  refine ⟨texts, r, ?_, hmakes⟩
  -- in memory nothing fails, so the file is there as a whole
  obtain ⟨p, hrun, htook⟩ := hmakes.fine Sink.not_fails_memory
  have hdata : p.sink.data.toList = utf8 (String.join texts) := htook.data
  rw [generateFile, EStateM.run, hrun]
  cases r with
  | ok report =>
    rw [Print.conclude_ok htook.failure]
    dsimp only
    rw [hdata, Lossy.decode_utf8]
    rfl
  | error fault =>
    rw [Print.conclude_error htook.failure]
    rfl

/-- A device that has no failure among its answers is left with the file. -/
theorem generate_of_fine {s : Sink} (hs : ∀ e, ¬ s.Fails e) {t : Table} {c : Config}
    {methods : List Method} {code : String} {report : Report}
    (h : generateFile t c methods = .ok (code, report)) :
    ∃ p, (generate t c methods).run { sink := s } = .ok report p ∧
      Took { sink := s } p (utf8 code) 1 [] := by
  obtain ⟨texts, r, hfile, hmakes⟩ := exists_texts t c methods
  obtain ⟨p, hrun, htook⟩ := hmakes.fine hs
  cases r with
  | error fault => cases hfile.symm.trans h
  | ok report' =>
    obtain ⟨rfl, rfl⟩ := Prod.mk.inj (Except.ok.inj (hfile.symm.trans h))
    rw [Print.conclude_ok htook.failure] at hrun
    exact ⟨p, hrun, htook⟩

/-- On such a device a batch that is no file stops for the same reason. -/
theorem generate_of_fine_error {s : Sink} (hs : ∀ e, ¬ s.Fails e) {t : Table} {c : Config}
    {methods : List Method} {fault : Fault} (h : generateFile t c methods = .error fault) :
    ∃ p part, (generate t c methods).run { sink := s } = .error fault p ∧
      Took { sink := s } p part 0 [] := by
  obtain ⟨texts, r, hfile, hmakes⟩ := exists_texts t c methods
  obtain ⟨p, hrun, htook⟩ := hmakes.fine hs
  cases r with
  | ok report => cases hfile.symm.trans h
  | error fault' =>
    obtain rfl := Except.error.inj (hfile.symm.trans h)
    rw [Print.conclude_error htook.failure] at hrun
    exact ⟨p, _, hrun, htook⟩

/-- There is no flush among some of the calls that print. -/
theorem count_flush_of_texts {texts : List String} {before after : List Call} {c : Call}
    (h : texts.map .print = before ++ c :: after) : (before ++ [c]).count .flush = 0 := by
  have hnone := Print.count_flush_texts texts
  rw [h, List.append_cons, List.count_append] at hnone
  exact Nat.eq_zero_of_add_eq_zero_right hnone

/-- What was printed before a call and a prefix of the text of that call begin the whole. -/
theorem begins_callsText (before after : List Call) {c : Call} {part : Bytes}
    (h : part <+: utf8 c.text) :
    utf8 (callsText before) ++ part <+: utf8 (callsText (before ++ c :: after)) := by
  rw [Printer.callsText_append, Printer.callsText_cons, utf8_append, utf8_append]
  exact (List.prefix_append_right_inj _).2 (h.trans (List.prefix_append _ _))

/-- The first failure is kept. Of some calls on a printer either all succeed, or one of them is the
first to fail, and then every call behind it reports the same failure and the printer and its
device stay as that one left them. The device holds the texts of the calls that succeeded, whose
bytes the printer counts, and then a prefix of the text that failed. A write that is interrupted is
made again and is no failure.

So a batch on any device leaves a prefix of the file that the batch is in memory: it succeeds, with
the whole file and one flush, if no write or flush failed, and otherwise it ends with the first
failure. If that is a failure to flush, the device holds the whole file. A batch that is no file in
memory stops there because a count is too large, and so it does on every device that does not fail
before, which is left with what the memory was left with, or a prefix of it. -/
theorem generate_leaves_beginning (s : Sink) :
    (∀ calls : List Call,
      (∃ p, runAll calls { sink := s } = (calls.map fun _ => .ok (), p) ∧
        Took { sink := s } p (utf8 (callsText calls)) (calls.count .flush) [] ∧
        p.written = (callsText calls).utf8ByteSize) ∨
      ∃ before c after p e part, calls = before ++ c :: after ∧
        runAll calls { sink := s } =
          ((before.map fun _ => .ok ()) ++ ((c :: after).map fun _ => .error e), p) ∧
        (runAll (before ++ [c]) { sink := s }).2 = p ∧
        Took { sink := s } p (utf8 (callsText before) ++ part) ((before ++ [c]).count .flush) [e] ∧
        part <+: utf8 c.text ∧ p.written = (callsText before).utf8ByteSize) ∧
    ∀ (t : Table) (c : Config) (methods : List Method),
      (∀ code report, generateFile t c methods = .ok (code, report) →
        (∃ p, (generate t c methods).run { sink := s } = .ok report p ∧
          Took { sink := s } p (utf8 code) 1 []) ∨
        ∃ p e, (generate t c methods).run { sink := s } = .error (.error (.sink e)) p ∧
          ((∃ part, Took { sink := s } p part 0 [e] ∧ part <+: utf8 code) ∨
            Took { sink := s } p (utf8 code) 1 [e])) ∧
      ∀ fault, generateFile t c methods = .error fault → fault = .overflow ∧
        ∃ m, (generate t c methods).run { sink := .memory } = .error fault m ∧
          ((∃ p, (generate t c methods).run { sink := s } = .error fault p ∧
            Took { sink := s } p m.sink.data.toList 0 []) ∨
          ∃ p e part, (generate t c methods).run { sink := s } = .error (.error (.sink e)) p ∧
            Took { sink := s } p part 0 [e] ∧ part <+: m.sink.data.toList) := by
  have hcalls := Printer.runAll_cases (p := { sink := s }) rfl
  simp only [Nat.zero_add] at hcalls
  refine ⟨hcalls, fun t c methods => ?_⟩
  obtain ⟨texts, r, hfile, hmakes⟩ := exists_texts t c methods
  have hrun := hmakes { sink := s } rfl
  have hall := hcalls (texts.map .print ++ closing r)
  have htexts := Print.callsText_closing texts r
  have hnone := Print.count_flush_texts texts
  cases r with
  | ok report =>
    refine ⟨fun code report' h => ?_, fun fault h => (by cases hfile.symm.trans h)⟩
    obtain ⟨rfl, rfl⟩ := Prod.mk.inj (Except.ok.inj (hfile.symm.trans h))
    rcases hall with ⟨p, hall, htook, -⟩ |
      ⟨before, c', after, p, e, part, hsplit, hall, -, htook, hbegins, -⟩
    · rw [hall, Print.conclude_ok htook.failure] at hrun
      rw [htexts, List.count_append, hnone] at htook
      exact .inl ⟨p, hrun, htook⟩
    · rw [hall, Print.conclude_failed htook.failure] at hrun
      refine .inr ⟨p, e, hrun, ?_⟩
      have hbegins' := begins_callsText before after hbegins
      rw [← hsplit, htexts] at hbegins'
      rcases List.eq_nil_or_concat after with rfl | ⟨after, last, rfl⟩
      · -- the flush, which is the last call, failed
        obtain ⟨rfl, hlast⟩ := List.append_inj' hsplit rfl
        obtain rfl := (List.cons.inj hlast).1
        obtain rfl := List.prefix_nil.1 hbegins
        rw [List.append_nil, Print.callsText_texts, List.count_append, hnone] at htook
        exact .inr htook
      · -- a print failed, so there was no flush
        rw [List.concat_eq_append, ← List.cons_append, ← List.append_assoc] at hsplit
        rw [count_flush_of_texts (List.append_inj' hsplit rfl).1] at htook
        exact .inl ⟨_, htook, hbegins'⟩
  | error fault =>
    refine ⟨fun code report' h => (by cases hfile.symm.trans h), fun fault h => ?_⟩
    obtain rfl := Except.error.inj (hfile.symm.trans h)
    obtain ⟨m, hmemory, htook⟩ := hmakes.fine Sink.not_fails_memory
    rw [Print.conclude_error htook.failure] at hmemory
    have hdata : m.sink.data.toList = utf8 (String.join texts) := htook.data
    refine ⟨eq_overflow_of_error h, m, hmemory, ?_⟩
    rw [hdata]
    rw [closing, List.append_nil] at hrun hall htexts
    rcases hall with ⟨p, hall, htook, -⟩ |
      ⟨before, c', after, p, e, part, hsplit, hall, -, htook, hbegins, -⟩
    · rw [hall, Print.conclude_error htook.failure] at hrun
      rw [htexts, hnone] at htook
      exact .inl ⟨p, hrun, htook⟩
    · rw [hall, Print.conclude_failed htook.failure] at hrun
      rw [count_flush_of_texts hsplit] at htook
      have hbegins' := begins_callsText before after hbegins
      rw [← hsplit, htexts] at hbegins'
      exact .inr ⟨p, e, _, hrun, htook, hbegins'⟩

theorem generateFile_ids : ∃ rest report,
    generateFile (Table.ofList [ids]) {} [.marshal, .msgsize] =
      .ok (fileHeader ++ rest, report) := by
  obtain ⟨a, b, hids⟩ := blocksAlone_of_code {} ids rfl rfl rfl rfl
  have hfit : ∀ entry ∈ (Table.ofList [ids]).entries,
      blocksAlone {} [.marshal, .msgsize] entry ≠ .error .overflow := by
    change ∀ entry ∈ [ids], _
    simp [hids]
  obtain ⟨outcomes, -, -, hprints⟩ := prints_generate hfit
  rw [fileText, String.append_assoc, String.append_assoc] at hprints
  exact ⟨_, _, generateFile_of_prints hprints⟩

/-- A device with room for ten bytes, which it takes in two writes. -/
def fullDisk : Sink := .limited (some 2) (some 5) false ⟨.other, "disk full"⟩ (by decide)

/-- The first text does not fit, so the batch stops at it. -/
theorem stops_fullDisk : ∃ p,
    (generate (Table.ofList [ids]) {} [.marshal, .msgsize]).run { sink := fullDisk } =
      .error (.error (.sink ⟨.other, "disk full"⟩)) p ∧ p.sink.flushes = 0 := by
  obtain ⟨rest, hbytes⟩ : ∃ rest, utf8 fileHeader =
      47 :: 47 :: 32 :: 67 :: 111 :: 100 :: 101 :: 32 :: 103 :: 101 :: 110 :: rest := ⟨_, rfl⟩
  have hwrite : ∃ sink, fullDisk.writeAll (utf8 fileHeader) =
      (.error ⟨.other, "disk full"⟩, sink) ∧ sink.flushes = 0 := by
    rw [hbytes, Sink.writeAll_accept rfl]
    simp only [List.drop_succ_cons, List.drop_zero]
    rw [Sink.writeAll_accept rfl]
    simp only [List.drop_succ_cons, List.drop_zero]
    rw [Sink.writeAll]
    exact ⟨_, rfl, rfl⟩
  obtain ⟨sink, hwrite, hflushes⟩ := hwrite
  refine ⟨{ sink, failure := some ⟨.other, "disk full"⟩ }, ?_, hflushes⟩
  simp only [generate, EStateM.run, bind, EStateM.bind, print, Print.call, Printer.print, hwrite]

/-- A device that takes seven bytes at a time and cannot be flushed. -/
def brokenCache : Sink := .limited none (some 7) true ⟨.brokenPipe, "cache lost"⟩ (by decide)

/-- The flushes of a broken cache fail, and nothing else. -/
theorem had_brokenCache {p : Printer} {bytes : Bytes} {flushes : Nat} {had : List SinkError}
    (h : Took { sink := brokenCache } p bytes flushes had) :
    had = List.replicate flushes ⟨.brokenPipe, "cache lost"⟩ := by
  have hwrites : ∀ calls : List Nat,
      calls.filterMap (fun n => (brokenCache.onWrite n).failure?) = [] :=
    fun _ => List.filterMap_eq_nil_iff.2 fun _ _ => rfl
  have hflush : brokenCache.onFlush = some ∘ fun _ => ⟨.brokenPipe, "cache lost"⟩ := rfl
  rw [← h.failures, Sink.failures, hwrites, hflush, List.filterMap_eq_map, List.map_const',
    List.length_range', h.flushes, Nat.add_sub_cancel_left, List.nil_append]

/-- A full disk is left with a prefix of the file and is not flushed. A broken cache is left with
the whole file, and the flush that reached it failed. -/
theorem generate_fullDisk : ∃ code report p q,
    generateFile (Table.ofList [ids]) {} [.marshal, .msgsize] = .ok (code, report) ∧
    ((generate (Table.ofList [ids]) {} [.marshal, .msgsize]).run { sink := fullDisk } =
        .error (.error (.sink ⟨.other, "disk full"⟩)) p ∧
      p.sink.data.toList <+: utf8 code ∧ p.sink.flushes = 0 ∧
      fullDisk.failures p.sink = [⟨.other, "disk full"⟩]) ∧
    (generate (Table.ofList [ids]) {} [.marshal, .msgsize]).run { sink := brokenCache } =
        .error (.error (.sink ⟨.brokenPipe, "cache lost"⟩)) q ∧
      q.sink.data.toList = utf8 code ∧ q.sink.flushes = 1 := by
  obtain ⟨rest, report, hfile⟩ := generateFile_ids
  obtain ⟨p, hstop, hflushes⟩ := stops_fullDisk
  have hfull : p.sink.data.toList <+: utf8 (fileHeader ++ rest) ∧
      fullDisk.failures p.sink = [⟨.other, "disk full"⟩] := by
    rcases ((generate_leaves_beginning fullDisk).2 _ _ _).1 _ _ hfile with ⟨p', hrun, -⟩ |
      ⟨p', e, hrun, ⟨part, htook, hbegins⟩ | htook⟩
    · cases hstop.symm.trans hrun
    · cases hstop.symm.trans hrun
      have hdata : p.sink.data.toList = part := htook.data
      rw [hdata]
      exact ⟨hbegins, htook.failures⟩
    · cases hstop.symm.trans hrun
      cases htook.flushes.symm.trans hflushes
  rcases ((generate_leaves_beginning brokenCache).2 _ _ _).1 _ _ hfile with ⟨q, hrun, htook⟩ |
    ⟨q, e, hrun, ⟨part, htook, -⟩ | htook⟩
  · -- there was a flush, so there was a failure
    cases had_brokenCache htook
  · -- there was no flush, so there was no failure
    cases had_brokenCache htook
  · obtain rfl := (List.cons.inj (had_brokenCache htook)).1
    exact ⟨_, report, p, q, hfile, ⟨hstop, hfull.1, hflushes, hfull.2⟩, hrun, htook.data,
      htook.flushes⟩

/-- A device whose first write is interrupted. -/
def interruptedOnce : Sink where
  onWrite := fun n => if n = 0 then .fail ⟨.interrupted, "signal"⟩ else .accept none
  onFlush := fun _ => none
  settles := fun _ => ⟨1, rfl⟩

theorem not_fails_interruptedOnce (e : SinkError) : ¬ interruptedOnce.Fails e := by
  rintro (⟨n, hn⟩ | ⟨n, hn⟩)
  · cases n with
    | zero => cases hn
    | succ n => cases hn
  · cases hn

/-- An array that is too large to count. -/
def huge : String × Shape :=
  ("Huge", .array ⟨"2049638230412172402", some 2049638230412172402⟩ (.ofKind .int64))

/-- A batch may succeed although a write failed, by an interruption, and it may stop although no
write and no flush failed, because a count is too large. -/
theorem generate_despite_interruption :
    (∃ code report p,
      generateFile (Table.ofList [ids]) {} [.marshal, .msgsize] = .ok (code, report) ∧
      (generate (Table.ofList [ids]) {} [.marshal, .msgsize]).run { sink := interruptedOnce } =
        .ok report p ∧ p.sink.data.toList = utf8 code ∧
      interruptedOnce.onWrite 0 = .fail ⟨.interrupted, "signal"⟩ ∧ 0 < p.sink.calls) ∧
    ∃ p, (generate (Table.ofList [huge]) {} [.msgsize]).run { sink := .memory } =
        .error .overflow p ∧ Sink.memory.failures p.sink = [] := by
  constructor
  · obtain ⟨rest, report, hfile⟩ := generateFile_ids
    obtain ⟨p, hrun, htook⟩ := generate_of_fine not_fails_interruptedOnce hfile
    have hwritten : utf8 (fileHeader ++ rest) ≠ [] := by
      rw [utf8_append]
      exact List.cons_ne_nil _ _
    exact ⟨_, report, p, hfile, hrun, htook.data, rfl, htook.calls hwritten⟩
  · have hbody : Msgsize.body {} huge.2 = .error .overflow := rfl
    have hfile : generateFile (Table.ofList [huge]) {} [.msgsize] = .error .overflow := by
      refine (generateFile_eq_overflow_iff _ _ _).2 ⟨huge, List.mem_singleton.2 rfl, ?_⟩
      rw [blocksAlone_eq, CodeGenerator.blocksOf, Method.render, Msgsize.render, hbody]
      rfl
    obtain ⟨p, part, hrun, htook⟩ := generate_of_fine_error Sink.not_fails_memory hfile
    exact ⟨p, hrun, htook.failures⟩

end Batch

end Packwright
