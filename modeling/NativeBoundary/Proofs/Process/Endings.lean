import NativeBoundary.Proofs.Process.Operations

/-!
# Endings

The history of a process keeps what happened in native memory and what became of the policy slot
and of the handles in one order.  Some of these events are ends: a block is freed, a place in a
pool is given back, the slot is cleared, a handle is released.  `Process.Ends` says of a stretch of
work that some things ended in it, one after the other, and that nothing else happened; `Heap.Ends`
says it of native memory alone.

* `Heap.ends_release`, `Memory.ends_takeBack` — blocks and places;
* `Process.ends_setMemory` — what ends in native memory ends in the process;
* `Process.ends_unbind` — of a binding that is in place, the slot ends first and the handle second.
-/

namespace NativeBoundary

/-- What can come to an end. -/
inductive Ending
  /-- A block of native memory is freed. -/
  | block (id : BlockId)
  /-- A place in a pool is given back. -/
  | place (pool : PoolId) (index : Nat)
  /-- The policy slot is cleared. -/
  | slot
  /-- An object is removed from a registry. -/
  | handle (registry : RegistryId) (handle : Handle)

namespace Ending

variable {ε : Type} {ending? : ε → Option Ending} {before after later : List ε}
  {endings more : List Ending}

/-- A history, newest event first, got some events more, and each of them is an end: these are
`endings`, first one first. -/
def Between (ending? : ε → Option Ending) (before : List ε) (endings : List Ending)
    (after : List ε) : Prop :=
  ∃ events, after = events ++ before ∧ events.reverse.map ending? = endings.map some

theorem Between.of_eq (hsame : after = before) : Between ending? before [] after :=
  ⟨[], hsame, rfl⟩

theorem Between.one (before : List ε) {event : ε} {ending : Ending}
    (hends : ending? event = some ending) : Between ending? before [ending] (event :: before) := by
  refine ⟨[event], rfl, ?_⟩
  rw [List.reverse_singleton, List.map_singleton, hends]
  rfl

theorem Between.trans (first : Between ending? before endings after)
    (second : Between ending? after more later) :
    Between ending? before (endings ++ more) later := by
  obtain ⟨events, rfl, hends⟩ := first
  obtain ⟨events', rfl, hends'⟩ := second
  refine ⟨events' ++ events, (List.append_assoc _ _ _).symm, ?_⟩
  rw [List.reverse_append, List.map_append, List.map_append, hends, hends']

end Ending

namespace MemoryEvent

/-- What ended in native memory, if something did. -/
def ending? : MemoryEvent → Option Ending
  | allocator (.freed id _ _) => some (.block id)
  | allocator _ => none
  | returned region index => some (.place region index)

end MemoryEvent

namespace ProcessEvent

/-- What ended, if something did. -/
def ending? : ProcessEvent → Option Ending
  | memory event => event.ending?
  | slotCleared => some .slot
  | handleReleased registry handle => some (.handle registry handle)

end ProcessEvent

/-- What ends with a binding, in order. -/
def Binding.endings (b : Binding) : List Ending := [.slot, .handle globalRegistry b.handle]

namespace Heap

variable {h h' h'' : Heap} {id : BlockId} {endings more : List Ending}

/-- Some things in native memory came to an end, first one first, and nothing else happened. -/
def Ends (h : Heap) (endings : List Ending) (h' : Heap) : Prop :=
  Ending.Between MemoryEvent.ending? h.history endings h'.history

theorem Ends.of_history (hhistory : h'.history = h.history) : h.Ends [] h' :=
  Ending.Between.of_eq hhistory

theorem Ends.trans (first : h.Ends endings h') (second : h'.Ends more h'') :
    h.Ends (endings ++ more) h'' :=
  Ending.Between.trans first second

theorem ends_free (hlive : (h.block? id).isSome) (holding : Holding) :
    h.Ends [.block id] (h.free id holding) := by
  obtain ⟨last, hlast⟩ := Option.isSome_iff_exists.mp hlive
  have hhistory : (h.free id holding).history =
      .allocator (.freed id last holding) :: h.history := by
    rw [free, hlast]
  unfold Ends
  rw [hhistory]
  exact .one h.history rfl

/-- Wiping a block before it is freed is no event. -/
theorem ends_release (hlive : (h.block? id).isSome) (length : Nat) (wiped : Bool) :
    h.Ends [.block id] (h.release id length wiped) := by
  cases wiped with
  | false => exact ends_free hlive _
  | true =>
      have hwiped : ((h.wipe id 0 length).block? id).isSome := by
        rw [wipe, block?_update, if_pos rfl, Option.isSome_map]
        exact hlive
      exact ends_free hwiped _

/-- What happened since is what ended. -/
theorem Ends.historySince (he : h.Ends endings h') :
    (h'.historySince h).reverse.map MemoryEvent.ending? = endings.map some := by
  obtain ⟨events, hhistory, hends⟩ := he
  unfold Heap.historySince
  rw [hhistory, List.length_append, Nat.add_sub_cancel, List.take_left]
  exact hends

end Heap

/-- A block that comes back to its pool gives back its place. -/
theorem Memory.ends_takeBack (m : Memory) (p : Pool) (b : PoolBlock) :
    m.heap.Ends [.place b.pool b.index] (m.takeBack p b).heap :=
  .one m.heap.history rfl

namespace Process

variable {p q r : Process} {b : Binding} {endings more : List Ending}

/-- Some things came to an end, first one first, and nothing else happened. -/
def Ends (p : Process) (endings : List Ending) (q : Process) : Prop :=
  Ending.Between ProcessEvent.ending? p.history endings q.history

theorem Ends.of_history (hhistory : q.history = p.history) : p.Ends [] q :=
  Ending.Between.of_eq hhistory

theorem Ends.trans (first : p.Ends endings q) (second : q.Ends more r) :
    p.Ends (endings ++ more) r :=
  Ending.Between.trans first second

/-- What ends in native memory ends in the process. -/
theorem ends_setMemory {m : Memory} (he : p.heap.Ends endings m.heap) :
    p.Ends endings (p.setMemory m) := by
  refine ⟨(m.heap.historySince p.heap).map .memory, rfl, ?_⟩
  rw [← List.map_reverse, List.map_map]
  exact he.historySince

theorem history_dropObject (p : Process) (object : Object) :
    (p.dropObject object).history = p.history := by
  cases object <;> rfl

/-- The end of a guard whose object is registered is the end of its handle. -/
theorem ends_dropGuard {g : HandleGuard} {object : Object}
    (hlookup : p.lookup? g.registry g.handle = some object) :
    p.Ends [.handle g.registry g.handle] (p.dropGuard g) := by
  unfold lookup? at hlookup
  unfold dropGuard releaseHandle Registries.release
  rw [hlookup]
  have hreleased : p.Ends [.handle g.registry g.handle]
      (p.note (.handleReleased g.registry g.handle)) := .one p.history rfl
  exact hreleased.trans (.of_history (history_dropObject _ object))

/-- A binding that is in place ends with the slot and, after that, with its handle. -/
theorem ends_unbind {policy : Policy} (hslot : p.slot = b.handle.toPointer)
    (hlookup : p.lookup? globalRegistry b.handle = some (.policy policy)) :
    p.Ends b.endings (p.unbind b) := by
  have hcleared : p.Ends [.slot] p.clearSlot := .one p.history rfl
  have hreleased := ends_dropGuard (p := p.clearSlot) (g := ⟨globalRegistry, b.handle⟩) hlookup
  rw [unbind_eq, if_pos hslot]
  exact hcleared.trans hreleased

end Process

end NativeBoundary
