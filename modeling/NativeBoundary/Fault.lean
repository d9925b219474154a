import NativeBoundary.Data.Hexadecimal

/-!
# Faults and return codes

A native call reports its outcome as one 32-bit code, zero for success.  On the host side
a failure is a `Fault`: what went wrong, and a text for the reader.  The two are related
in both directions.

* `Fault.code` — the code that stands for a fault.
* `Fault.ofCode?` — the fault that a code stands for in the native operation `op`; zero
  stands for none, and a code outside the table is kept as it is.
* `Fault.message` — the one place where faults are put into words.
* `Fault.code_ofCode?` — reading a code and writing it again gives the code back.
-/

namespace NativeBoundary

-- The table of return codes that both sides know.

namespace Code

def success : Int32 := 0
def transport : Int32 := -1
def badArgument : Int32 := -16711678
def notSupported : Int32 := -16711675
def notFound : Int32 := -16711674
def crypto : Int32 := -16515071
def bitLeak : Int32 := -16515070

end Code

/-- A failure, as the host sees it. -/
inductive Fault
  /-- An argument breaks a rule of the call. -/
  | badArgument (reason : String)
  /-- A handle or a binding that is not there. -/
  | notFound (what : String)
  /-- An operation that the policy or the native side does not offer. -/
  | notSupported (operation : String)
  /-- A cryptographic step that failed. -/
  | cryptoFailure (reason : String)
  /-- A verification that leaked a bit of the key. -/
  | bitLeak
  /-- A second policy for a thread that has one. -/
  | alreadyBound
  /-- A message that could not be moved between parties. -/
  | transport (reason : String)
  /-- A return code outside the table. -/
  | native (operation : String) (code : Int32)
deriving DecidableEq, Repr

namespace Fault

/-- The return code that stands for a fault. -/
def code : Fault → Int32
  | badArgument _ => Code.badArgument
  | notFound _ => Code.notFound
  | notSupported _ => Code.notSupported
  | cryptoFailure _ => Code.crypto
  | bitLeak => Code.bitLeak
  | alreadyBound => Code.badArgument
  | transport _ => Code.transport
  | native _ code => code

/-- The fault that a return code of the operation `op` stands for. -/
def ofCode? (op : String) (code : Int32) : Option Fault :=
  if code = Code.success then none
  else if code = Code.badArgument then some (badArgument s!"{op} rejected its arguments")
  else if code = Code.notFound then some (notFound s!"{op}: handle or binding")
  else if code = Code.notSupported then some (notSupported op)
  else if code = Code.crypto then some (cryptoFailure s!"{op} failed")
  else if code = Code.bitLeak then some bitLeak
  else if code = Code.transport then some (transport s!"{op} transport callback failed")
  else some (native op code)

/-- A return code as the outcome of the operation `op`. -/
def check (op : String) (code : Int32) : Except Fault Unit :=
  match ofCode? op code with
  | none => .ok ()
  | some fault => .error fault

/-- Whether the key has to be taken for compromised. -/
def isBitLeak : Fault → Bool
  | bitLeak => true
  | _ => false

/-- A code as the reader sees it: in base ten, in base sixteen as an unsigned word, and
split into the category (the third byte) and the low half. -/
def describeCode (code : Int32) : String :=
  let word := code.toUInt32.toNat
  let category := hexNumber (word / 65536 % 256)
  let low := hexNumber (word % 65536)
  toString code.toInt ++ " (" ++ hexNumber word ++ ", cat=" ++ category ++ ", code=" ++ low ++ ")"

/-- The fault in words. -/
def message : Fault → String
  | badArgument reason => s!"bad argument: {reason}"
  | notFound what => s!"not found: {what}"
  | notSupported operation => s!"not supported: {operation}"
  | cryptoFailure reason => s!"cryptographic failure: {reason}"
  | bitLeak => "bit leak detected during verification; treat the key as compromised"
  | alreadyBound => "a policy is already bound on this thread"
  | transport reason => s!"transport failure: {reason}"
  | native operation code => s!"{operation} failed with code {describeCode code}"

/-- Success is the only code without a fault. -/
theorem ofCode?_eq_none_iff (op : String) (code : Int32) :
    ofCode? op code = none ↔ code = Code.success := by
  unfold ofCode?
  split <;> simp_all
  repeat' split
  all_goals simp

/-- A fault read from a code has that code. -/
theorem code_ofCode? {op : String} {code : Int32} {fault : Fault}
    (h : ofCode? op code = some fault) : fault.code = code := by
  unfold ofCode? at h
  repeat' split at h
  all_goals cases h
  all_goals simp_all [Fault.code]

end Fault

end NativeBoundary
