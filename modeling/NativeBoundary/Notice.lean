import NativeBoundary.Handles.Handle
import NativeBoundary.Memory.Batch

/-!
# Notices

What the boundary reports to the log beside its answers: warnings and errors, each with a fixed
text and a few named fields.  A notice is kept as what happened; `Notice.message` and
`Notice.fields` put it into words.
-/

namespace NativeBoundary

/-- How serious a notice is. -/
inductive Level
  | warn
  | error
deriving DecidableEq, Repr

/-- Something worth reporting. -/
inductive Notice
  /-- A second policy for a thread that has one. -/
  | bindingRefused
  /-- The policy slot was given another value while it held one. -/
  | slotOverwritten (previous policy : Handle)
  /-- A binding ended while the policy slot held something else. -/
  | slotLost (binding : Handle)
  /-- A handle was released that is not registered. -/
  | unknownRelease (handle : Handle)
  | malformedBatch (count : Int32) (reason : Malformation)
  | policyFailed (op : String) (fault : Fault)
  | policyPanicked (op : String)
  | transportFailed (op : String) (fault : Fault)
  | transportPanicked (op : String)
  | bitLeak (op : String)
deriving DecidableEq, Repr

namespace Notice

/-- How serious a notice is. -/
def level : Notice → Level
  | policyPanicked _ | transportPanicked _ | bitLeak _ => .error
  | _ => .warn

/-- The notice in words. -/
def message : Notice → String
  | bindingRefused => "refusing to bind a KEM policy over an existing binding"
  | slotOverwritten _ _ => "policy slot overwritten while bound"
  | slotLost _ => "policy slot no longer holds this binding"
  | unknownRelease _ => "release of unknown handle"
  | malformedBatch _ _ => "rejecting malformed native batch"
  | policyFailed _ _ => "KEM callback failed"
  | policyPanicked _ => "panic in KEM policy"
  | transportFailed _ _ => "transport callback failed"
  | transportPanicked _ => "panic in transport"
  | bitLeak _ => "native call reported a bit leak"

/-- The fields of a notice. -/
def fields : Notice → List (String × String)
  | bindingRefused => []
  | slotOverwritten previous policy => [("previous", previous.text), ("policy", policy.text)]
  | slotLost binding => [("handle", binding.text)]
  | unknownRelease handle => [("handle", handle.text)]
  | malformedBatch count reason =>
      [("count", toString count.toInt), ("reason", reason.message)]
  | policyFailed op fault => [("op", op), ("error", fault.message)]
  | policyPanicked op => [("op", op)]
  | transportFailed op fault => [("op", op), ("error", fault.message)]
  | transportPanicked op => [("op", op)]
  | bitLeak op => [("op", op)]

end Notice

end NativeBoundary
