import Packwright.Bytes
import Packwright.Error

/-
  Output devices. A device answers its n-th write by taking some of the bytes or by failing, and
  its n-th flush likewise. Any sequence of answers is possible, except that no write is interrupted
  for ever: `writeAll` makes an interrupted write again, and writes on until everything is taken or
  another failure ends it.
-/

namespace Packwright

/-- How a device answers a write. -/
inductive WriteReply where
  /-- Takes at most so many bytes; `none` is no limit. -/
  | accept (limit : Option Nat)
  | fail (e : SinkError)

/-- Whether a write was interrupted, so that it is to be made again. -/
def WriteReply.isInterruption : WriteReply → Bool
  | accept _ => false
  | fail e => e.kind = .interrupted

/-- An output device: its answers, the calls made so far, and the bytes it took. -/
structure Sink where
  onWrite : Nat → WriteReply
  onFlush : Nat → Option SinkError
  calls : Nat := 0
  flushes : Nat := 0
  data : Array UInt8 := #[]
  /-- Interruptions end. -/
  settles : ∀ n, ∃ k, (onWrite (n + k)).isInterruption = false

namespace Sink

/-- A device that takes everything. -/
def memory : Sink where
  onWrite := fun _ => .accept none
  onFlush := fun _ => none
  settles := fun _ => ⟨0, rfl⟩

/-- A device that takes `writes` writes of at most `chunk` bytes each, then fails. -/
def limited (writes chunk : Option Nat) (failFlush : Bool) (e : SinkError)
    (he : e.kind ≠ .interrupted) : Sink where
  onWrite := fun n =>
    match writes with
    | some limit => if n < limit then .accept chunk else .fail e
    | none => .accept chunk
  onFlush := fun _ => if failFlush then some e else none
  settles := fun n => ⟨0, by
    split
    · split
      · rfl
      · exact decide_eq_false he
    · rfl⟩

theorem exists_wait (s : Sink) : ∃ k, (s.onWrite (s.calls + k)).isInterruption = false ∧
    ∀ j, (s.onWrite (s.calls + j)).isInterruption = false → k ≤ j := by
  obtain ⟨k, hk⟩ := s.settles s.calls
  induction k using Nat.strongRecOn with
  | ind k ih =>
    by_cases hleast : ∀ j, (s.onWrite (s.calls + j)).isInterruption = false → k ≤ j
    · exact ⟨k, hk, hleast⟩
    · obtain ⟨j, hj⟩ := Classical.not_forall.1 hleast
      obtain ⟨hfine, hlt⟩ := Classical.not_imp.1 hj
      exact ih j (Nat.lt_of_not_le hlt) hfine

/-- How many interruptions come before the next write that is none. -/
noncomputable def wait (s : Sink) : Nat := Classical.choose s.exists_wait

theorem wait_lt {s : Sink} (h : (s.onWrite s.calls).isInterruption = true) :
    wait { s with calls := s.calls + 1 } < s.wait := by
  obtain ⟨hend, -⟩ := Classical.choose_spec s.exists_wait
  have hleast := (Classical.choose_spec (exists_wait { s with calls := s.calls + 1 })).2
  change (s.onWrite (s.calls + s.wait)).isInterruption = false at hend
  cases hwait : s.wait with
  | zero =>
    rw [hwait, Nat.add_zero, h] at hend
    cases hend
  | succ k =>
    refine Nat.lt_succ_of_le (hleast k ?_)
    rw [hwait, ← Nat.succ_add_eq_add_succ] at hend
    exact hend

/-- The failure of a device that takes nothing although there is something to write. -/
def wroteNothing : SinkError := ⟨.writeZero, "failed to write whole buffer"⟩

/-- Writes until the device has taken all bytes or fails. No bytes need no write, and a write that
was interrupted is made again. -/
def writeAll (s : Sink) (bytes : Bytes) : Except SinkError Unit × Sink :=
  match bytes with
  | [] => (.ok (), s)
  | b :: rest =>
    if (s.onWrite s.calls).isInterruption then
      writeAll { s with calls := s.calls + 1 } (b :: rest)
    else match s.onWrite s.calls with
      | .fail e => (.error e, { s with calls := s.calls + 1 })
      | .accept none => (.ok (), { s with calls := s.calls + 1, data := s.data ++ (b :: rest) })
      | .accept (some 0) => (.error wroteNothing, { s with calls := s.calls + 1 })
      | .accept (some (n + 1)) =>
        writeAll { s with calls := s.calls + 1, data := s.data ++ (b :: rest.take n) } (rest.drop n)
termination_by (bytes.length, s.wait)
decreasing_by
  · exact Prod.Lex.right _ (wait_lt ‹_›)
  · apply Prod.Lex.left
    simp only [List.length_drop, List.length_cons]
    omega

/-- Flushes the device. -/
def flush (s : Sink) : Except SinkError Unit × Sink :=
  let next := { s with flushes := s.flushes + 1 }
  match s.onFlush s.flushes with
  | some e => (.error e, next)
  | none => (.ok (), next)

end Sink

end Packwright
