import StressAppTest.Pattern

/-!
# Page entries (`queue.h`)

A `PageEntry` describes one page of the test memory and the pattern it is expected to hold.
The entry is *valid* when it names a pattern and *empty* when it does not; this is the only
distinction the queues make.
-/

namespace StressAppTest

/-- Tag indicating no preference. -/
def kDontCareTag : Word32 := 0xffffffff

/-- The tag of an entry that no region has been found for. -/
def kInvalidTag : Word32 := 0xf001

/-- `struct page_entry`. Addresses are numbers, a null pointer is `none`. -/
structure PageEntry where
  offset : Nat
  addr : Option Nat
  paddr : Nat
  pattern : Option Pattern
  tag : Word32
  touch : Word32
  ts : Nat
  lastcpu : Word32
  writeDramFrequency : Int
  lastpattern : Option Pattern

/-- `init_pe`. It leaves `paddr` and `lastpattern` alone. -/
def PageEntry.initPe (pe : PageEntry) : PageEntry :=
  { pe with
    offset := 0
    addr := none
    pattern := none
    tag := kInvalidTag
    touch := 0
    ts := 0
    lastcpu := 0
    writeDramFrequency := -1 }

/-- The word address of the page behind an entry. -/
def PageEntry.memblock (pe : PageEntry) : Nat := pe.addr.getD 0 / 8

/-- What `PutEmpty` enforces on the entry it stores. -/
def PageEntry.cleared (pe : PageEntry) : PageEntry :=
  { pe with pattern := none, writeDramFrequency := -1 }

/-- The two kinds of page the queues tell apart, `page_is_valid` and `page_is_empty`. -/
inductive PageKind
  | valid
  | empty
  deriving DecidableEq, Repr

/-- `page_is_valid` / `page_is_empty` as the predicate handed to the search. -/
def PageKind.holds : PageKind → PageEntry → Bool
  | .valid, pe => pe.pattern.isSome
  | .empty, pe => pe.pattern.isNone

/-- The kind an entry is of. -/
def PageEntry.kind (pe : PageEntry) : PageKind :=
  if pe.pattern.isSome then .valid else .empty

theorem PageKind.holds_iff {k : PageKind} {pe : PageEntry} : k.holds pe = true ↔ pe.kind = k := by
  unfold PageEntry.kind
  cases k <;> cases h : pe.pattern <;> simp [PageKind.holds, h]

/-- `(tag == kDontCareTag) || (entry.tag & tag)` -/
def tagMatches (tag entryTag : Word32) : Bool :=
  tag == kDontCareTag || !(entryTag &&& tag == 0)

@[simp] theorem tagMatches_dontCare (entryTag : Word32) : tagMatches kDontCareTag entryTag = true := by
  simp [tagMatches]

end StressAppTest
