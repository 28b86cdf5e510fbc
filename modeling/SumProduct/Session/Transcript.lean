import SumProduct.Session.Basic

/-!
# Transcripts

A whole session runs over bytes. It ends after the last line, at `!quit`, or at a line that is not
UTF-8, and nothing behind that line is looked at. Each line before it gives one record, which is
empty for a line without an answer.
-/

namespace SumProduct

/-- The lines of some bytes, without the line feeds that end them. The last one may have none. -/
def splitLines (bytes : List UInt8) : List (List UInt8) :=
  match bytes with
  | [] => []
  | first :: rest =>
    (first :: rest).takeWhile (· ≠ 10) ::
      splitLines (((first :: rest).dropWhile (· ≠ 10)).drop 1)
termination_by bytes.length
decreasing_by
  have := (List.dropWhile_sublist (l := first :: rest) (· ≠ 10)).length_le
  simp only [List.length_drop, List.length_cons] at *
  omega

/-- The record of an answer. -/
def Session.record : Except SessionError Reply → String
  | .ok (.show text) => text ++ "\n"
  | .ok _ => ""
  | .error e => "error: " ++ e.diagnostic.message ++ "\n"

/-- What comes of the bytes of a line. -/
inductive LineOutcome where
  | unreadable
  | ended
  | answered (after : Session) (record : String)
deriving DecidableEq

/-- Handles a line that is given as bytes. -/
def Session.hear (s : Session) (line : List UInt8) : LineOutcome :=
  match String.fromUTF8? ⟨line.toArray⟩ with
  | none => .unreadable
  | some text =>
    match s.handle text with
    | (_, .ok .quit) => .ended
    | (after, answer) => .answered after (Session.record answer)

/-- What a session writes, and whether all lines that it came to were UTF-8. -/
structure Transcript where
  records : List String
  readable : Bool
deriving DecidableEq

namespace Transcript

def output (t : Transcript) : String := String.join t.records

/-- The transcript of the lines behind a point of a session. -/
def ofLines (s : Session) : List (List UInt8) → Transcript
  | [] => ⟨[], true⟩
  | line :: rest =>
    match s.hear line with
    | .unreadable => ⟨[], false⟩
    | .ended => ⟨[], true⟩
    | .answered after record =>
      let later := ofLines after rest
      ⟨record :: later.records, later.readable⟩

def ofBytes (bytes : ByteArray) : Transcript := ofLines .start (splitLines bytes.toList)

end Transcript

end SumProduct
