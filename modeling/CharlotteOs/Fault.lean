/-!
# Faults

A kernel function that does not return stops the machine: it panics at one of its panic sites, or
it runs in a loop that never ends. Each panic site of the modelled functions is one constructor.
-/

namespace CharlotteOs

/-- How a kernel function fails to return. -/
inductive Fault
  /-- `assert_eq!(pa.page_offset(), 0)` in a conversion from an address to a page number. -/
  | pageOffset
  /-- A slice index out of bounds. -/
  | indexOutOfBounds
  /-- `NonZeroUsize::new(0).unwrap()`. -/
  | unwrapZero
  /-- `panic!("Requested size is too large for buddy system allocator")`. -/
  | orderTooLarge
  /-- `unimplemented!()` for sizes above the largest cache. -/
  | unimplemented
  /-- `panic!("FATAL: active_slab_ppn does not point to a Slub Head!")`. -/
  | activeNotSlub
  /-- `panic!("FATAL: Memory corruption! Found non-Head page in partial_slabs_head")`. -/
  | partialHeadNotSlub
  /-- `panic!("FATAL: free_object called on a non-Slub page!")`. -/
  | freeNotSlub
  /-- `panic!("FATAL: Non-Slub page found in partial_slabs_head!")`. -/
  | partialNotSlub
  /-- `panic!("FATAL: Tried to remove PPN but it was not in the partial list!")`. -/
  | notInPartial
  /-- `panic!("FATAL: SlubTail does not point to a Slub Head!")`. -/
  | tailNotSlub
  /-- `panic!("FATAL: Tried to dealloc a pointer not belonging to SLUB!")`. -/
  | deallocNotSlub
  /-- `assert!(self.count < MAX_REGIONS, "Region array full!")`. -/
  | regionArrayFull
  /-- `assert!(self.count < MAX_REGIONS, "Region array full during hole punching!")`. -/
  | regionArrayFullHole
  /-- `NonNull::new(0).unwrap()` for the base of a stack. -/
  | stackNull
  /-- `expect("next task missing")`. -/
  | nextTaskMissing
  /-- `unreachable!()` at the end of a function that blocks the current task. -/
  | unreachable
  /-- `current_task_id.unwrap()` without a current task. -/
  | noCurrentTask
  /-- The remainder by a capacity of zero. -/
  | remainderByZero
  /-- `assume_init_read` of a slot that was never written. -/
  | uninitRead
  /-- A load or store through a pointer to the context of a task that is gone. -/
  | danglingContext
  /-- `unwrap()` or `expect` of `None`. -/
  | unwrapNone
  /-- A load or store through a pointer that the page table in use does not map. -/
  | pageFault
  /-- `panic!("FATAL: Tried to map a small page inside an existing large page at VPN")`. -/
  | largePage
  /-- `assert!(!pte.is_valid(), "vpn is mapped before mapping")`. -/
  | mappedBefore
  /-- `assert!(pte.is_valid(), "vpn is must be valid before unmapping")`. -/
  | notMapped
  /-- `set_ppn` with a page number that does not fit in `satp`. -/
  | satpPpn
  /-- `system_reset`, which turns the machine off. -/
  | shutdown
  /-- A loop whose exit condition never comes. -/
  | endless
  deriving DecidableEq, Repr

/-- A step that returns hands its value on. -/
theorem ok_bind {α β : Type} (a : α) (f : α → Except Fault β) : (Except.ok a >>= f) = f a := rfl

/-- A step that faults ends the computation. -/
theorem error_bind {α β : Type} (e : Fault) (f : α → Except Fault β) :
    (Except.error e >>= f) = .error e := rfl

/-- A computation that returns took its first step. -/
theorem exists_of_bind_eq_ok {α β : Type} {x : Except Fault α} {f : α → Except Fault β} {b : β}
    (h : x >>= f = .ok b) : ∃ a, x = .ok a ∧ f a = .ok b := by
  cases x with
  | error e => cases h
  | ok a => exact ⟨a, rfl, h⟩

/-- A computation that faults does so in its first step or after it. -/
theorem cases_of_bind_eq_error {α β : Type} {x : Except Fault α} {f : α → Except Fault β}
    {e : Fault} (h : x >>= f = .error e) : x = .error e ∨ ∃ a, x = .ok a ∧ f a = .error e := by
  cases x with
  | error e' =>
    cases h
    exact .inl rfl
  | ok a => exact .inr ⟨a, rfl, h⟩

end CharlotteOs
