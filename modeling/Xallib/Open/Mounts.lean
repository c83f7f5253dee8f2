import Xallib.Fiemap.Index
import Xallib.Lib.Scan

/-!
# `retrieve_mountpoint`

The table `/proc/mounts` is the text that is read of it, or the error number of `fopen`. The state
of a scan is what has not been read yet.
-/

namespace Xallib

open Lib Lib.Cm

/-- `isspace` of the "C" locale -/
def isspace (c : UInt8) : Bool := c == 32 || (9 ≤ c && c ≤ 13)

/-- `'\n'` -/
def newline : UInt8 := 10

/-- The bytes before the terminator. -/
def cString (s : List UInt8) : CStr := s.takeWhile (· ≠ 0)

/-- `%s`, into an array of `XAL_PATH_MAXLEN + 1` bytes; none at the end of the text. -/
def scanMountWord : Cm Err (List UInt8) (Option (List UInt8)) := fun input =>
  match scanWord isspace input with
  | none => .ok none []
  | some (w, rest) => if w.length ≤ pathMaxlen then .ok (some w) rest else .crash

/-- `fscanf(f, "%s %s%*[^\n]\n", d, m)`: the words `d` and `m` where it returns 2, which it does
whatever follows these. -/
def scanMountLine : Cm Err (List UInt8) (Option (List UInt8 × List UInt8)) := do
  match ← scanMountWord with
  | none => pure none
  | some d =>
    match ← scanMountWord with
    | none => pure none
    | some m => do
      modify (skipLine isspace newline)
      pure (some (d, m))

section
variable (devUri : CStr)

/-- The `while` of `retrieve_mountpoint`; `fuel` bounds the rounds. -/
def scanMounts : Nat → Cm Err (List UInt8) (Option CStr)
  | 0 => fun _ => .spin
  | fuel + 1 => do
    match ← scanMountLine with
    | none => pure none
    | some (d, m) => if cString d = devUri then pure (some (cString m)) else scanMounts fuel

/-- `retrieve_mountpoint`; the state is the string `mntpnt`. -/
def retrieveMountpoint (mounts : Except Nat (List UInt8)) (fuel : Nat) : Cm Err CStr Unit :=
  match mounts with
  | .error errno => fail ⟨.openFile, -(errno : Int)⟩
  | .ok input =>
    match scanMounts devUri fuel input with
    | .ok (some mntpnt) _ => modify fun _ => mntpnt
    | .ok none _ => fail ⟨.argument, -EINVAL⟩
    | .fail e _ => fail e
    | .crash => crash
    | .spin => fun _ => .spin

end

end Xallib
