import Formula.Position
import Formula.Token.Scanner

/-!
Scanning a source from a position on.  A position below zero counts backwards from the end; a scan
that begins there and reaches the end goes on at the beginning.  What a run of characters yields is
always what the source holds between the positions of its two ends, so that it may be less than
what was passed.
-/

namespace Formula

namespace Scan

/-- The position in a source at which the given characters are left. -/
def positionOf (source rest : List Char) : Int := source.length - rest.length

/-- A scan that yields what the source holds between its ends. -/
def within (source : List Char) (scan : List Char → Scan) (cs : List Char) : Scan :=
  let rest := (scan cs).rest
  ⟨between source (positionOf source cs) (positionOf source rest), rest⟩

/-- A scan that loses nothing and begins inside the source yields just what it takes. -/
theorem within_append (passed : List Char) {scan : List Char → Scan} {cs : List Char}
    (h : (scan cs).text ++ (scan cs).rest = cs) : within (passed ++ cs) scan cs = scan cs := by
  have hlength := congrArg List.length h
  simp only [List.length_append] at hlength
  have hstart : positionOf (passed ++ cs) cs = (passed.length : Nat) := by
    simp only [positionOf, List.length_append]
    omega
  have hstop : positionOf (passed ++ cs) (scan cs).rest =
      (passed.length + (scan cs).text.length : Nat) := by
    simp only [positionOf, List.length_append]
    omega
  have htext : between (passed ++ cs) passed.length (passed.length + (scan cs).text.length : Nat) =
      (scan cs).text := by
    rw [between_natCast, List.take_length_add_append, List.drop_left]
    exact List.prefix_iff_eq_take.1 ⟨_, h⟩ |>.symm
  simp only [within]
  rw [hstart, hstop, htext]

/-- A scan that cannot fail, from a position of a source on: its text and its end. -/
def runFrom (scan : List Char → Scan) (source : String) (start : Int) :
    Except Fault (String × Int) :=
  let cs := source.toList
  if start < -cs.length then .error (Fault.atPosition start .pastEnd)
  else
    let stop := start + (scan (itemsFrom cs start)).text.length
    .ok (String.ofList (between cs start stop), stop)

/-- A scan of a number or a part of one, given how it takes digits, from a position of a source
on: its text and its end. -/
def numberFrom (scan : (List Char → Scan) → List Char → Except (List Char) Scan)
    (source : String) (start : Int) : Except Fault (String × Int) :=
  let cs := source.toList
  if start < -cs.length ∨ cs.length < start then .error (Fault.atPosition start .pastEnd)
  else match scan (within cs integer) (itemsFrom cs start) with
    | .ok s => .ok (String.ofList s.text, positionOf cs s.rest)
    | .error rest => .error (.badNumber source (positionOf cs rest))

end Scan

end Formula
