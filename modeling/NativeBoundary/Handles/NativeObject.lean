import NativeBoundary.Data.Hexadecimal
import NativeBoundary.Memory.Buffer

/-!
# Native objects

Points, commitments and keys that the native library allocates are held as native objects.  An
object is made from a pointer that is not null and released exactly once: when it is freed or
dropped, unless its pointer is given up before.

* `NativeObject.ofPointer` — taking an object over.
* `Heap.releaseObject` — releasing it.
* `Heap.objectsReleased` — how many objects were released so far.
-/

namespace NativeBoundary

/-- An object of the native library that the host owns. -/
structure NativeObject where
  block : BlockId
deriving DecidableEq, Repr

namespace NativeObject

/-- What the objects are called. -/
def kind : String := "ecc point"

/-- The pointer to an object. -/
def pointer (o : NativeObject) : Pointer := .native o.block 0

/-- The object as a value of its type; the number of its block stands for its address. -/
def describe (o : NativeObject) : String :=
  "NativeObject<" ++ kind ++ ">(" ++ hexNumber o.block ++ ")"

/-- The object that a pointer leads to; null leads to none. -/
def ofPointer (pointer : Pointer) : Except Fault NativeObject :=
  match pointer.block? with
  | some block => .ok ⟨block⟩
  | none => .error (.badArgument s!"null {kind} pointer")

end NativeObject

namespace Heap

/-- Releases an object. -/
def releaseObject (h : Heap) (o : NativeObject) : Heap := h.free o.block .object

/-- Whether a block was freed as an object. -/
def isObjectRelease : HeapEvent → Bool
  | .freed _ _ .object => true
  | _ => false

/-- How many objects were released so far. -/
def objectsReleased (h : Heap) : Nat := h.trace.countP isObjectRelease

end Heap

end NativeBoundary
