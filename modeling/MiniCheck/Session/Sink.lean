import MiniCheck.Session.Transcript

/-!
# Writing to a sink

A sink may take only so many bytes, in all the runs of a session together. What
goes beyond is cut off, and the run whose report is cut fails for that reason,
whatever else it came to. A report that writes nothing always fits.
-/

namespace MiniCheck

abbrev Bytes := List UInt8

/-- The UTF-8 encoding of a text. -/
def encodeUtf8 (text : String) : Bytes := text.toUTF8.data.toList

/-- How many bytes can still be written, where there is a limit. -/
abbrev Sink := Option Nat

namespace Sink

def fits (s : Sink) (bytes : Bytes) : Bool := s.all fun room => bytes.length ≤ room

/-- The part of `bytes` that is written. -/
def written (s : Sink) (bytes : Bytes) : Bytes :=
  match s with
  | none => bytes
  | some room => bytes.take room

def after (s : Sink) (bytes : Bytes) : Sink := s.map fun room => room - bytes.length

@[simp] theorem written_of_fits {s : Sink} {bytes : Bytes} (h : s.fits bytes = true) :
    s.written bytes = bytes := by
  cases s with
  | none => rfl
  | some room => exact List.take_of_length_le (by simpa [fits] using h)

end Sink

namespace Session

/-- What one run of a session has written and how it ended. -/
structure Step where
  written : Bytes
  outcome : Except Failure Unit

def step (style : Style) (sink : Sink) (t : Transcript) : Step × Sink :=
  let bytes := encodeUtf8 (t.render style)
  let outcome := if sink.fits bytes then t.outcome else .error (.unwritten "sink is full")
  (⟨sink.written bytes, outcome⟩, sink.after bytes)

/-- The steps of a session, one for each transcript. -/
def run (style : Style) : Sink → List Transcript → List Step
  | _, [] => []
  | sink, t :: ts =>
    let (first, sink) := step style sink t
    first :: run style sink ts

end Session
end MiniCheck
