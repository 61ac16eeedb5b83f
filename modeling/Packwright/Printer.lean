import Packwright.Sink

/-
  Printing to an output device. The first failure is kept: every later call reports it again and
  does not reach the device.
-/

namespace Packwright

/-- A device, the bytes of the texts printed to it, and its first failure. -/
structure Printer where
  sink : Sink
  written : Nat := 0
  failure : Option SinkError := none

namespace Printer

/-- The outcome of a call: an error or none, and the printer after it. -/
abbrev Outcome := Except SinkError Unit × Printer

/-- Reports the first failure. -/
def ok (p : Printer) : Outcome :=
  match p.failure with
  | some e => (.error e, p)
  | none => (.ok (), p)

/-- Prints a text. -/
def print (p : Printer) (text : String) : Outcome :=
  match p.failure with
  | some e => (.error e, p)
  | none =>
    match p.sink.writeAll (utf8 text) with
    | (.ok _, sink) => (.ok (), { p with sink, written := p.written + text.utf8ByteSize })
    | (.error e, sink) => (.error e, { p with sink, failure := some e })

/-- Flushes the device. -/
def flush (p : Printer) : Outcome :=
  match p.failure with
  | some e => (.error e, p)
  | none =>
    match p.sink.flush with
    | (.ok _, sink) => (.ok (), { p with sink })
    | (.error e, sink) => (.error e, { p with sink, failure := some e })

end Printer

/-- A computation that prints. It keeps the printer when it stops. -/
abbrev Print := EStateM Fault Printer

/-- A call on the printer as a step of a computation. -/
def Print.call (f : Printer → Printer.Outcome) : Print Unit := fun p =>
  match f p with
  | (.ok _, p) => .ok () p
  | (.error e, p) => .error (.error (.sink e)) p

end Packwright
