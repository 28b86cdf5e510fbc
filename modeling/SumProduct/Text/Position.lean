/-!
# Places in a text

Places are counted in bytes of UTF-8. Lines are counted from one and end with a line feed.
-/

namespace SumProduct.Text

/-- The length in bytes. -/
def size : List Char → Nat
  | [] => 0
  | c :: rest => c.utf8Size + size rest

@[simp] theorem size_append (a b : List Char) : size (a ++ b) = size a + size b := by
  induction a with
  | nil => simp [size]
  | cons c rest ih => simp [size, ih, Nat.add_assoc]

/-- The size is that of the text in UTF-8. -/
@[simp] theorem size_toList (s : String) : size s.toList = s.utf8ByteSize := by
  have of (cs : List Char) : size cs = (String.ofList cs).utf8ByteSize := by
    induction cs with
    | nil => rfl
    | cons c rest ih =>
      have split : String.ofList (c :: rest) = String.singleton c ++ String.ofList rest := by
        rw [String.singleton_eq_ofList, ← String.ofList_append]
        rfl
      rw [size, ih, split, String.utf8ByteSize_append, String.utf8ByteSize_singleton]
  rw [of, String.ofList_toList]

/-- The line of the place `bytes` bytes further on, if that is between characters. The text starts
on the line `line`. -/
def lineFrom (line bytes : Nat) : List Char → Option Nat
  | [] => if bytes = 0 then some line else none
  | c :: rest =>
    if bytes = 0 then some line
    else if c.utf8Size ≤ bytes then
      lineFrom (if c = '\n' then line + 1 else line) (bytes - c.utf8Size) rest
    else none

/-- The line of a place. For a place inside a character all lines of the text count. -/
def lineAt (bytes : Nat) (text : List Char) : Nat :=
  (lineFrom 1 bytes text).getD (1 + text.count '\n')

@[simp] theorem lineFrom_append (line : Nat) (a b : List Char) :
    lineFrom line (size a) (a ++ b) = some (line + a.count '\n') := by
  induction a generalizing line with
  | nil => cases b <;> simp [lineFrom, size]
  | cons c rest ih =>
    have positive := c.utf8Size_pos
    have remaining : c.utf8Size + size rest - c.utf8Size = size rest := by omega
    rw [List.cons_append, size, lineFrom, if_neg (by omega), if_pos (by omega), remaining, ih]
    by_cases feed : c = '\n'
    · simp only [feed, if_pos, List.count_cons_self]
      rw [Nat.add_assoc, Nat.add_comm 1]
    · simp [feed]

/-- The line of a place between characters is one more than the line feeds before it. -/
@[simp] theorem lineAt_append (a b : List Char) : lineAt (size a) (a ++ b) = 1 + a.count '\n' := by
  rw [lineAt, lineFrom_append]
  rfl

end SumProduct.Text
